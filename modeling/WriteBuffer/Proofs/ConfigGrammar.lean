import Mathlib
import WriteBuffer.Proofs.ConfigText
import WriteBuffer.Proofs.Storage

/-!
The texts that are read as configurations. A text spells a configuration if it is the word of its kind
and numbers behind colons, with blanks around the text, the word and the numbers
(`TableConfig.Spells`); which numbers may stand there, and what holds where they do not, is a matter of
the kind (`TableConfig.Takes`). Trimming a text before it is split gives the same pieces, but for the
blanks around them (`Text.Padded.map_trim_splitOn`), so reading accepts what spells a configuration
and nothing else (`TableConfig.parse_exact`).
-/
namespace WriteBuffer

namespace Text

variable {text core before after : List Char}

/-- A text is another one with blanks around it. -/
def Padded (text core : List Char) : Prop :=
  ∃ before after, (∀ c ∈ before, isBlank c) ∧ (∀ c ∈ after, isBlank c) ∧
    text = before ++ core ++ after

theorem padded_refl (text : List Char) : Padded text text :=
  ⟨[], [], nofun, nofun, (List.append_nil text).symm⟩

theorem trim_append_left (blank : ∀ c ∈ before, isBlank c) (text : List Char) :
    trim (before ++ text) = trim text := by
  rw [trim, trim, trimStart.eq_1 (before ++ text), List.dropWhile_append_of_pos blank, trimStart.eq_1 text]

theorem trim_append_right (blank : ∀ c ∈ after, isBlank c) (text : List Char) :
    trim (text ++ after) = trim text := by
  have blankToo : ∀ c ∈ after.reverse, isBlank c := fun c member => blank c (List.mem_reverse.mp member)
  simp only [trim, trimStart]
  rw [List.dropWhile_append]
  by_cases nothing : text.dropWhile isBlank = []
  · rw [nothing, List.isEmpty_nil, if_pos rfl, List.dropWhile_eq_nil_iff.mpr blank]
  · rw [if_neg (by simpa using nothing), List.reverse_append, List.dropWhile_append_of_pos blankToo]

theorem Padded.trim_eq (padded : Padded text core) : trim text = trim core := by
  obtain ⟨before, after, blankBefore, blankAfter, rfl⟩ := padded
  rw [trim_append_right blankAfter, trim_append_left blankBefore]

theorem padded_trim (text : List Char) : Padded text (trim text) := by
  have front : text = text.takeWhile isBlank ++ trimStart text :=
    List.takeWhile_append_dropWhile.symm
  have back : trimStart text = trim text ++ ((trimStart text).reverse.takeWhile isBlank).reverse := by
    rw [trim, ← List.reverse_append, trimStart.eq_1 (trimStart text).reverse,
      List.takeWhile_append_dropWhile, List.reverse_reverse]
  refine ⟨text.takeWhile isBlank, ((trimStart text).reverse.takeWhile isBlank).reverse,
    fun c member => List.mem_takeWhile_imp member,
    fun c member => List.mem_takeWhile_imp (List.mem_reverse.mp member), ?_⟩
  rw [List.append_assoc, ← back, ← front]

theorem trim_eq_iff (noBlank : ∀ c ∈ core, isBlank c = false) : trim text = core ↔ Padded text core :=
  ⟨fun trimmed => trimmed ▸ padded_trim text,
    fun padded => padded.trim_eq.trans (trim_of_noBlank noBlank)⟩

/-- A text spells a number: one or more ASCII digits, with an optional plus sign in front. -/
def Numeral (text : List Char) (n : Nat) : Prop :=
  ∃ sign digits, (sign = [] ∨ sign = ['+']) ∧ digits ≠ [] ∧ (∀ c ∈ digits, c.isDigit) ∧
    text = sign ++ digits ∧ Nat.ofDigitChars 10 digits 0 = n

theorem digitsFrom?_eq_some_iff {value n : Nat} :
    digitsFrom? value text = some n ↔
      (∀ c ∈ text, c.isDigit) ∧ Nat.ofDigitChars 10 text value = n := by
  by_cases digits : ∀ c ∈ text, c.isDigit
  · rw [digitsFrom?_eq value digits, Option.some_inj, and_iff_right digits]
  · refine iff_of_false (fun spelled => digits ?_) fun spelled => digits spelled.1
    clear digits
    induction text generalizing value with
    | nil => exact fun c member => absurd member List.not_mem_nil
    | cons c rest ih =>
      obtain ⟨digit, found, spelled⟩ := Option.bind_eq_some_iff.mp spelled
      have isDigit : c.isDigit := by
        by_contra other
        rw [digit?, if_neg other] at found
        cases found
      exact List.forall_mem_cons.mpr ⟨isDigit, ih spelled⟩

theorem digits?_eq_some_iff {n : Nat} :
    digits? text = some n ↔
      text ≠ [] ∧ (∀ c ∈ text, c.isDigit) ∧ Nat.ofDigitChars 10 text 0 = n := by
  cases text with
  | nil => exact iff_of_false nofun fun spelled => spelled.1 rfl
  | cons c rest => exact digitsFrom?_eq_some_iff.trans (and_iff_right (List.cons_ne_nil c rest)).symm

/-- Exactly the texts that spell a number are read as it. -/
theorem unsigned?_eq_some_iff {n : Nat} : unsigned? text = some n ↔ Numeral text n := by
  by_cases signed : ∃ rest, text = '+' :: rest
  · obtain ⟨rest, rfl⟩ := signed
    rw [unsigned?, digits?_eq_some_iff]
    constructor
    · rintro ⟨some, digits, value⟩
      exact ⟨['+'], rest, .inr rfl, some, digits, rfl, value⟩
    · rintro ⟨sign, digits, rfl | rfl, some, allDigits, same, value⟩
      -- A plus sign is no digit.
      · obtain rfl : '+' :: rest = digits := same
        exact absurd (allDigits '+' List.mem_cons_self) (by decide)
      · obtain rfl : rest = digits := List.cons.inj same |>.2
        exact ⟨some, allDigits, value⟩
  · have unsigned : unsigned? text = digits? text :=
      unsigned?.eq_2 text fun rest same => signed ⟨rest, same⟩
    rw [unsigned, digits?_eq_some_iff]
    constructor
    · rintro ⟨some, digits, value⟩
      exact ⟨[], text, .inl rfl, some, digits, rfl, value⟩
    · rintro ⟨sign, digits, rfl | rfl, some, allDigits, same, value⟩
      · obtain rfl : text = digits := same
        exact ⟨some, allDigits, value⟩
      · exact absurd ⟨digits, same⟩ signed

theorem below?_eq_some_iff {limit n : Nat} : below? limit text = some n ↔ Numeral text n ∧ n < limit := by
  rw [below?, Option.filter_eq_some_iff, unsigned?_eq_some_iff, decide_eq_true_iff]

theorem Numeral.plain {n : Nat} (numeral : Numeral text n) :
    ∀ c ∈ text, isBlank c = false ∧ c ≠ ':' := by
  obtain ⟨sign, digits, signed, -, allDigits, rfl, -⟩ := numeral
  intro c member
  rcases List.mem_append.mp member with inSign | inDigits
  · obtain rfl : c = '+' := by
      rcases signed with rfl | rfl
      · exact absurd inSign List.not_mem_nil
      · exact List.mem_singleton.mp inSign
    decide
  · have digit := allDigits c inDigits
    refine ⟨isBlank_of_isDigit digit, ?_⟩
    rintro rfl
    exact absurd digit (by decide)

/-- A number with blanks around it. -/
def Field (text : List Char) (n : Nat) : Prop := ∃ core, Padded text core ∧ Numeral core n

theorem field_iff {n : Nat} : Field text n ↔ Numeral (trim text) n := by
  constructor
  · rintro ⟨core, padded, numeral⟩
    rwa [(trim_eq_iff fun c member => (numeral.plain c member).1).mpr padded]
  · exact fun numeral => ⟨_, padded_trim text, numeral⟩

theorem not_colon_of_blank (blank : ∀ c ∈ text, isBlank c) : ':' ∉ text :=
  fun member => absurd (blank ':' member) (by decide)

theorem Padded.clear (padded : Padded text core) (clear : ':' ∉ core) : ':' ∉ text := by
  obtain ⟨before, after, blankBefore, blankAfter, rfl⟩ := padded
  simp only [List.mem_append, not_or]
  exact ⟨⟨not_colon_of_blank blankBefore, clear⟩, not_colon_of_blank blankAfter⟩

theorem Field.clear {n : Nat} (field : Field text n) : ':' ∉ text := by
  obtain ⟨core, padded, numeral⟩ := field
  exact padded.clear fun colon => (numeral.plain ':' colon).2 rfl

/-- Blanks behind a text end up in its last piece. -/
theorem map_trim_splitOn_append_right (blank : ∀ c ∈ after, isBlank c) (text : List Char) :
    ((text ++ after).splitOn ':').map trim = (text.splitOn ':').map trim := by
  -- The induction goes along the text, with the beginning of a piece in front of it.
  suffices pieces : ∀ first, ':' ∉ first →
      ((first ++ text ++ after).splitOn ':').map trim = ((first ++ text).splitOn ':').map trim from
    pieces [] List.not_mem_nil
  induction text with
  | nil =>
    intro first clear
    rw [List.append_nil, List.splitOn_eq_singleton clear,
      List.splitOn_eq_singleton (by simp [clear, not_colon_of_blank blank]), List.map_singleton,
      List.map_singleton, trim_append_right blank]
  | cons c rest ih =>
    intro first clear
    by_cases colon : c = ':'
    · rw [colon, List.append_assoc, List.cons_append,
        List.splitOn_append_cons_self_of_not_mem clear,
        List.splitOn_append_cons_self_of_not_mem clear, List.map_cons, List.map_cons]
      exact congrArg _ (ih [] List.not_mem_nil)
    · have longer := ih (first ++ [c]) (by simp [clear, Ne.symm colon])
      rwa [List.append_assoc first [c] rest, List.singleton_append] at longer

theorem map_trim_splitOn_append_left (blank : ∀ c ∈ before, isBlank c) (text : List Char) :
    ((before ++ text).splitOn ':').map trim = (text.splitOn ':').map trim := by
  have clear : ':' ∉ before := not_colon_of_blank blank
  by_cases colon : ':' ∈ text
  · obtain ⟨first, rest, rfl, clearFirst⟩ := List.eq_append_cons_of_mem colon
    rw [← List.append_assoc, List.splitOn_append_cons_self_of_not_mem (by simp [clear, clearFirst]),
      List.splitOn_append_cons_self_of_not_mem clearFirst, List.map_cons, List.map_cons,
      trim_append_left blank]
  · rw [List.splitOn_eq_singleton colon, List.splitOn_eq_singleton (by simp [clear, colon]),
      List.map_singleton, List.map_singleton, trim_append_left blank]

/-- The pieces of a text are those of the text without the blanks around it, but for blanks. -/
theorem Padded.map_trim_splitOn (padded : Padded text core) :
    (text.splitOn ':').map trim = (core.splitOn ':').map trim := by
  obtain ⟨before, after, blankBefore, blankAfter, rfl⟩ := padded
  rw [map_trim_splitOn_append_right blankAfter, map_trim_splitOn_append_left blankBefore]

end Text

namespace TableConfig

open Text (Padded Numeral Field)

/-- The numbers that may stand behind the word of a configuration, each within the range of its option.
The options without a number have their defaults. -/
inductive Takes : List Nat → TableConfig → Prop
  | skipList : Takes [] .skipList
  | vector : Takes [] (.vector 0)
  | vectorCount (count : UInt64) : Takes [count.toNat] (.vector count)
  | hashedSkipLists :
    Takes [] (.hashedSkipLists { bucketCount := 1000000, height := 4, branching := 4 })
  | hashedSkipListsBuckets (bucketCount : UInt64) :
    Takes [bucketCount.toNat] (.hashedSkipLists { bucketCount, height := 4, branching := 4 })
  | hashedSkipListsTowers (bucketCount height : UInt64) (branching : UInt32) :
    Takes [bucketCount.toNat, height.toNat, branching.toNat]
      (.hashedSkipLists { bucketCount, height, branching })
  | hashedChains : Takes [] (.hashedChains { bucketCount := 50000, hugePageSize := 0 })
  | hashedChainsBuckets (bucketCount : UInt64) :
    Takes [bucketCount.toNat] (.hashedChains { bucketCount, hugePageSize := 0 })
  | hashedChainsPages (bucketCount hugePageSize : UInt64) :
    Takes [bucketCount.toNat, hugePageSize.toNat] (.hashedChains { bucketCount, hugePageSize })
  | cuckoo (writeBufferSize : UInt64) :
    Takes [writeBufferSize.toNat]
      (.cuckoo { writeBufferSize, averageDataSize := 64, hashCount := 4 })
  | cuckooEntries (writeBufferSize averageDataSize : UInt64) :
    Takes [writeBufferSize.toNat, averageDataSize.toNat]
      (.cuckoo { writeBufferSize, averageDataSize, hashCount := 4 })
  | cuckooHashes (writeBufferSize averageDataSize hashCount : UInt64) :
    Takes [writeBufferSize.toNat, averageDataSize.toNat, hashCount.toNat]
      (.cuckoo { writeBufferSize, averageDataSize, hashCount })

/-- A text spells a configuration: the word of its kind and numbers that it takes behind colons, with
blanks around the text, the word and the numbers. -/
def Spells (text : List Char) (config : TableConfig) : Prop :=
  ∃ first fields numbers, Padded text ([':'].intercalate (first :: fields)) ∧
    Padded first (word config.kind) ∧ List.Forall₂ Field fields numbers ∧ Takes numbers config

variable {kind : TableKind} {field text : List Char} {config : TableConfig}

theorem number_eq_ok_iff {limit n : Nat} :
    number kind limit field = .ok n ↔ Field field n ∧ n < limit := by
  rw [Text.field_iff, ← Text.below?_eq_some_iff, number]
  cases Text.below? limit (Text.trim field) <;> simp

theorem map_eq_ok {ε α β : Type} {f : α → β} {answer : Except ε α} {result : β} :
    answer.map f = .ok result ↔ ∃ value, answer = .ok value ∧ f value = result := by
  cases answer <;> simp [Except.map]

theorem size_eq_ok_iff {n : UInt64} : size kind field = .ok n ↔ Field field n.toNat := by
  constructor
  · intro read
    obtain ⟨spelled, found, same⟩ := map_eq_ok.mp read
    obtain ⟨spelled, below⟩ := number_eq_ok_iff.mp found
    rwa [← same, UInt64.toNat_ofNat_of_lt' below]
  · intro spelled
    rw [size, number_eq_ok_iff.mpr ⟨spelled, n.toNat_lt⟩, Except.map, UInt64.ofNat_toNat]

theorem factor_eq_ok_iff {n : UInt32} : factor kind field = .ok n ↔ Field field n.toNat := by
  constructor
  · intro read
    obtain ⟨spelled, found, same⟩ := map_eq_ok.mp read
    obtain ⟨spelled, below⟩ := number_eq_ok_iff.mp found
    rwa [← same, UInt32.toNat_ofNat_of_lt' below]
  · intro spelled
    rw [factor, number_eq_ok_iff.mpr ⟨spelled, n.toNat_lt⟩, Except.map, UInt32.ofNat_toNat]

/-- Fields that are read hold the numbers of the configuration that comes out. -/
theorem takes_of_ofFields? {fields : List (List Char)}
    (read : ofFields? kind fields = some (.ok config)) :
    config.kind = kind ∧ ∃ numbers, List.Forall₂ Field fields numbers ∧ Takes numbers config := by
  fun_cases ofFields? kind fields with
  | case1 =>
    cases read
    exact ⟨rfl, [], .nil, .skipList⟩
  | case2 =>
    cases read
    exact ⟨rfl, [], .nil, .vector⟩
  | case3 count =>
    obtain ⟨n, count, done⟩ := bind_eq_ok.mp (Option.some.inj read)
    cases done
    exact ⟨rfl, _, .cons (size_eq_ok_iff.mp count) .nil, .vectorCount n⟩
  | case4 =>
    cases read
    exact ⟨rfl, [], .nil, .hashedSkipLists⟩
  | case5 buckets =>
    obtain ⟨n, buckets, done⟩ := bind_eq_ok.mp (Option.some.inj read)
    cases done
    exact ⟨rfl, _, .cons (size_eq_ok_iff.mp buckets) .nil, .hashedSkipListsBuckets n⟩
  | case6 buckets height branching =>
    obtain ⟨n, buckets, read⟩ := bind_eq_ok.mp (Option.some.inj read)
    obtain ⟨h, height, read⟩ := bind_eq_ok.mp read
    obtain ⟨b, branching, done⟩ := bind_eq_ok.mp read
    cases done
    exact ⟨rfl, _, .cons (size_eq_ok_iff.mp buckets) (.cons (size_eq_ok_iff.mp height)
      (.cons (factor_eq_ok_iff.mp branching) .nil)), .hashedSkipListsTowers n h b⟩
  | case7 =>
    cases read
    exact ⟨rfl, [], .nil, .hashedChains⟩
  | case8 buckets =>
    obtain ⟨n, buckets, done⟩ := bind_eq_ok.mp (Option.some.inj read)
    cases done
    exact ⟨rfl, _, .cons (size_eq_ok_iff.mp buckets) .nil, .hashedChainsBuckets n⟩
  | case9 buckets page =>
    obtain ⟨n, buckets, read⟩ := bind_eq_ok.mp (Option.some.inj read)
    obtain ⟨p, page, done⟩ := bind_eq_ok.mp read
    cases done
    exact ⟨rfl, _, .cons (size_eq_ok_iff.mp buckets) (.cons (size_eq_ok_iff.mp page) .nil),
      .hashedChainsPages n p⟩
  | case10 => cases read
  | case11 buffer =>
    obtain ⟨n, buffer, done⟩ := bind_eq_ok.mp (Option.some.inj read)
    cases done
    exact ⟨rfl, _, .cons (size_eq_ok_iff.mp buffer) .nil, .cuckoo n⟩
  | case12 buffer average =>
    obtain ⟨n, buffer, read⟩ := bind_eq_ok.mp (Option.some.inj read)
    obtain ⟨a, average, done⟩ := bind_eq_ok.mp read
    cases done
    exact ⟨rfl, _, .cons (size_eq_ok_iff.mp buffer) (.cons (size_eq_ok_iff.mp average) .nil),
      .cuckooEntries n a⟩
  | case13 buffer average hashes =>
    obtain ⟨n, buffer, read⟩ := bind_eq_ok.mp (Option.some.inj read)
    obtain ⟨a, average, read⟩ := bind_eq_ok.mp read
    obtain ⟨h, hashes, done⟩ := bind_eq_ok.mp read
    cases done
    exact ⟨rfl, _, .cons (size_eq_ok_iff.mp buffer) (.cons (size_eq_ok_iff.mp average)
      (.cons (size_eq_ok_iff.mp hashes) .nil)), .cuckooHashes n a h⟩
  | case14 =>
    simp only [ofFields?] at read
    cases read

/-- Fields with the numbers of a configuration are read as it. -/
theorem Takes.ofFields?_eq {fields : List (List Char)} {numbers : List Nat}
    (takes : Takes numbers config) (spelled : List.Forall₂ Field fields numbers) :
    ofFields? config.kind fields = some (.ok config) := by
  cases takes with
  | skipList | vector | hashedSkipLists | hashedChains =>
    cases spelled
    rfl
  | vectorCount | hashedSkipListsBuckets | hashedChainsBuckets | cuckoo =>
    obtain _ | ⟨first, _ | _⟩ := spelled
    simp only [TableConfig.kind, ofFields?, size_eq_ok_iff.mpr first]
    rfl
  | hashedChainsPages | cuckooEntries =>
    obtain _ | ⟨first, _ | ⟨second, _ | _⟩⟩ := spelled
    simp only [TableConfig.kind, ofFields?, size_eq_ok_iff.mpr first, size_eq_ok_iff.mpr second]
    rfl
  | hashedSkipListsTowers =>
    obtain _ | ⟨first, _ | ⟨second, _ | ⟨third, _ | _⟩⟩⟩ := spelled
    simp only [TableConfig.kind, ofFields?, size_eq_ok_iff.mpr first, size_eq_ok_iff.mpr second,
      factor_eq_ok_iff.mpr third]
    rfl
  | cuckooHashes =>
    obtain _ | ⟨first, _ | ⟨second, _ | ⟨third, _ | _⟩⟩⟩ := spelled
    simp only [TableConfig.kind, ofFields?, size_eq_ok_iff.mpr first, size_eq_ok_iff.mpr second,
      size_eq_ok_iff.mpr third]
    rfl

/-- Fields are read as the options of exactly the configurations that take the numbers in them. -/
theorem ofFields?_eq_ok_iff {fields : List (List Char)} :
    ofFields? kind fields = some (.ok config) ↔
      config.kind = kind ∧ ∃ numbers, List.Forall₂ Field fields numbers ∧ Takes numbers config := by
  refine ⟨takes_of_ofFields?, ?_⟩
  rintro ⟨rfl, numbers, spelled, takes⟩
  exact takes.ofFields?_eq spelled

theorem forall₂_field_iff {fields : List (List Char)} {numbers : List Nat} :
    List.Forall₂ Field fields numbers ↔ List.Forall₂ Numeral (fields.map Text.trim) numbers := by
  rw [List.forall₂_map_left_iff]
  exact ⟨.imp fun _ _ => Text.field_iff.mp, .imp fun _ _ => Text.field_iff.mpr⟩

/-- Whether a text spells a configuration can be seen from its pieces after it was trimmed. -/
theorem spells_iff {first : List Char} {fields : List (List Char)}
    (split : (Text.trim text).splitOn ':' = first :: fields) :
    Spells text config ↔ Text.trim first = word config.kind ∧
      ∃ numbers, List.Forall₂ Field fields numbers ∧ Takes numbers config := by
  have plain : ∀ c ∈ word config.kind, Text.isBlank c = false := fun c member => (plain_word _ c member).1
  constructor
  · rintro ⟨word, others, numbers, padded, paddedWord, spelled, takes⟩
    have clearWord : ':' ∉ word := paddedWord.clear fun colon => (plain_word _ ':' colon).2 rfl
    obtain ⟨clear, -⟩ := (List.forall₂_and_left others numbers).mp
      (spelled.imp fun _ _ field => ⟨field.clear, field⟩)
    have pieces := (Text.padded_trim text).map_trim_splitOn.symm.trans padded.map_trim_splitOn
    rw [split, List.splitOn_intercalate ':' (List.forall_mem_cons.mpr ⟨clearWord, clear⟩)
      (List.cons_ne_nil _ _), List.map_cons, List.map_cons] at pieces
    obtain ⟨same, sameFields⟩ := List.cons.inj pieces
    refine ⟨same.trans ((Text.trim_eq_iff plain).mpr paddedWord), numbers, ?_, takes⟩
    rwa [forall₂_field_iff, sameFields, ← forall₂_field_iff]
  · rintro ⟨trimmed, numbers, spelled, takes⟩
    refine ⟨first, fields, numbers, ?_, (Text.trim_eq_iff plain).mp trimmed, spelled, takes⟩
    rw [← split, List.intercalate_splitOn]
    exact Text.padded_trim text

theorem kindOf?_eq_some_iff : kindOf? text = some kind ↔ text = word kind := by
  constructor
  · intro found
    have same : (word kind == text) = true :=
      @List.find?_some _ (fun kind => word kind == text) _ _ found
    exact (eq_of_beq same).symm
  · rintro rfl
    exact kindOf?_word kind

/-- The first piece of a text is read as the kind, the others as the options. -/
theorem parse_pieces {first : List Char} {fields : List (List Char)}
    (split : (Text.trim text).splitOn ':' = first :: fields) :
    parse text = .ok config ↔ Text.trim first = word config.kind ∧
      ∃ numbers, List.Forall₂ Field fields numbers ∧ Takes numbers config := by
  have read : parse text = .ok config ↔
      (kindOf? (Text.trim first)).bind (ofFields? · fields) = some (.ok config) := by
    simp only [parse, split]
    cases (kindOf? (Text.trim first)).bind (ofFields? · fields) <;> simp
  rw [read, Option.bind_eq_some_iff]
  constructor
  · rintro ⟨kind, found, options⟩
    obtain ⟨rfl, numbers⟩ := ofFields?_eq_ok_iff.mp options
    exact ⟨kindOf?_eq_some_iff.mp found, numbers⟩
  · rintro ⟨same, numbers⟩
    exact ⟨config.kind, kindOf?_eq_some_iff.mpr same, ofFields?_eq_ok_iff.mpr ⟨rfl, numbers⟩⟩

theorem parse_eq_ok_iff : parse text = .ok config ↔ Spells text config := by
  obtain ⟨first, fields, split⟩ := List.exists_cons_of_ne_nil (List.splitOn_ne_nil ':' (Text.trim text))
  rw [parse_pieces split, spells_iff split]

/-- A text is read as a configuration if and only if it spells it, and refused if and only if it spells
none. -/
theorem parse_exact (text : List Char) :
    (∀ config, parse text = .ok config ↔ Spells text config) ∧
      ((∃ error, parse text = .error error) ↔ ¬ ∃ config, Spells text config) := by
  refine ⟨fun config => parse_eq_ok_iff, ?_⟩
  simp only [← parse_eq_ok_iff]
  cases parse text <;> simp

example : parse " cuckoo :+1024: 007\n".toList
    = .ok (.cuckoo { writeBufferSize := 1024, averageDataSize := 7, hashCount := 4 }) := by
  decide

end TableConfig

end WriteBuffer
