import Mathlib
import WriteBuffer.Config.Text
import WriteBuffer.Proofs.Numerals

/-!
Configurations written and read back. No blank and no further colon gets into what is written
(`TableConfig.splitOn_print`), so reading finds the word and the numbers again, and the numbers that were
left out are the defaults that reading fills in (`TableConfig.ofFields?_fields`).
-/
namespace WriteBuffer.TableConfig

theorem kindOf?_word (kind : TableKind) : kindOf? (word kind) = some kind := by
  cases kind <;> decide

theorem plain_word (kind : TableKind) : ∀ c ∈ word kind, Text.isBlank c = false ∧ c ≠ ':' := by
  have plain : (word kind).all fun c => !Text.isBlank c && c != ':' := by cases kind <;> decide
  simpa using plain

theorem plain_decimal (n : Nat) : ∀ c ∈ Text.decimal n, Text.isBlank c = false ∧ c ≠ ':' := by
  intro c member
  have digit := Text.isDigit_of_mem_decimal member
  refine ⟨Text.isBlank_of_isDigit digit, ?_⟩
  rintro rfl
  exact absurd digit (by decide)

theorem splitOn_colons {first : List Char} {fields : List (List Char)} (clear : ':' ∉ first)
    (allClear : ∀ field ∈ fields, ':' ∉ field) :
    (first ++ fields.flatMap (':' :: ·)).splitOn ':' = first :: fields := by
  induction fields generalizing first with
  | nil => rw [List.flatMap_nil, List.append_nil, List.splitOn_eq_singleton clear]
  | cons field rest ih =>
    obtain ⟨clearField, clearRest⟩ := List.forall_mem_cons.mp allClear
    rw [List.flatMap_cons, List.cons_append, List.splitOn_append_cons_self_of_not_mem clear,
      ih clearField clearRest]

theorem noBlank_print (config : TableConfig) : ∀ c ∈ print config, Text.isBlank c = false := by
  intro c member
  simp only [print, List.mem_append, List.mem_flatMap, List.mem_cons] at member
  rcases member with inWord | ⟨n, _, rfl | inNumber⟩
  · exact (plain_word _ c inWord).1
  · decide
  · exact (plain_decimal n c inNumber).1

/-- What is written is split into the word and the numbers. -/
theorem splitOn_print (config : TableConfig) :
    (print config).splitOn ':' = word config.kind :: config.fields.map Text.decimal := by
  have clear : ∀ field ∈ config.fields.map Text.decimal, ':' ∉ field := by
    intro field member
    obtain ⟨n, _, rfl⟩ := List.mem_map.mp member
    exact fun colon => (plain_decimal n ':' colon).2 rfl
  have split := splitOn_colons (fun colon => (plain_word config.kind ':' colon).2 rfl) clear
  rwa [List.flatMap_map] at split

section Fields

variable {kind : TableKind} {limit : Nat}

theorem number_decimal {n : Nat} (below : n < limit) : number kind limit (Text.decimal n) = .ok n := by
  have untrimmed : Text.trim (Text.decimal n) = Text.decimal n :=
    Text.trim_of_noBlank fun c member => (plain_decimal n c member).1
  rw [number, untrimmed, Text.below?_decimal below]

@[simp]
theorem size_decimal (n : UInt64) : size kind (Text.decimal n.toNat) = .ok n := by
  rw [size, number_decimal n.toNat_lt, Except.map, UInt64.ofNat_toNat]

@[simp]
theorem factor_decimal (n : UInt32) : factor kind (Text.decimal n.toNat) = .ok n := by
  rw [factor, number_decimal n.toNat_lt, Except.map, UInt32.ofNat_toNat]

end Fields

/-- The numbers of a configuration are read as its options: those that are left out have their
defaults. -/
theorem ofFields?_fields (config : TableConfig) :
    ofFields? config.kind (config.fields.map Text.decimal) = some (.ok config) := by
  cases config with
  | skipList => rfl
  | vector count => simp [fields, kind, ofFields?, bind, Except.bind, pure, Except.pure]
  | hashedSkipLists options =>
    obtain ⟨buckets, height, branching⟩ := options
    by_cases short : height = 4 ∧ branching = 4
    · simp [fields, kind, ofFields?, short, bind, Except.bind, pure, Except.pure]
    · simp [fields, kind, ofFields?, short, bind, Except.bind, pure, Except.pure]
  | hashedChains options =>
    obtain ⟨buckets, page⟩ := options
    by_cases short : page = 0
    · simp [fields, kind, ofFields?, short, bind, Except.bind, pure, Except.pure]
    · simp [fields, kind, ofFields?, short, bind, Except.bind, pure, Except.pure]
  | cuckoo options =>
    obtain ⟨buffer, average, hashes⟩ := options
    by_cases usual : hashes = 4
    · by_cases short : average = 64
      · simp [fields, kind, ofFields?, usual, short, bind, Except.bind, pure, Except.pure]
      · simp [fields, kind, ofFields?, usual, short, bind, Except.bind, pure, Except.pure]
    · simp [fields, kind, ofFields?, usual, bind, Except.bind, pure, Except.pure]

/-- Every configuration, also one with which no table can be made, is read back as it was written. -/
theorem parse_print (config : TableConfig) : parse (print config) = .ok config := by
  have word_plain : Text.trim (word config.kind) = word config.kind :=
    Text.trim_of_noBlank fun c member => (plain_word _ c member).1
  have read : (kindOf? (Text.trim (word config.kind))).bind
      (ofFields? · (config.fields.map Text.decimal)) = some (.ok config) := by
    rw [word_plain, kindOf?_word, Option.bind_some, ofFields?_fields]
  rw [parse, Text.trim_of_noBlank (noBlank_print config), splitOn_print]
  simp only [read]

end WriteBuffer.TableConfig
