import Mathlib
import WriteBuffer.Proofs.ConfigGrammar

/-!
How short configurations are written. No text that spells a number is shorter than its digits
(`Text.Numeral.length_decimal_le`), and the numbers that are written stand at the beginning of those in
any other text for the configuration (`TableConfig.Takes.fields_prefix`). The exceptions are the
configurations that a word alone stands for: a first number is written for them although it could be
left out, and no other configuration is written longer than it has to be
(`TableConfig.print_shortest_iff`).
-/
namespace WriteBuffer

namespace Text

variable {text core : List Char} {n : Nat}

theorem ofDigitChars_lt (digits : ∀ c ∈ text, c.isDigit) (value : Nat) :
    Nat.ofDigitChars 10 text value < (value + 1) * 10 ^ text.length := by
  induction text generalizing value with
  | nil => simp
  | cons c rest ih =>
    obtain ⟨digit, digits⟩ := List.forall_mem_cons.mp digits
    have least : c.toNat - '0'.toNat ≤ 9 := by
      simp only [Char.isDigit, Bool.and_eq_true, decide_eq_true_eq] at digit
      have high : c.toNat ≤ 57 := digit.2
      exact Nat.sub_le_of_le_add high
    rw [Nat.ofDigitChars_cons]
    calc Nat.ofDigitChars 10 rest (10 * value + (c.toNat - '0'.toNat))
        < (10 * value + (c.toNat - '0'.toNat) + 1) * 10 ^ rest.length := ih digits _
      _ ≤ ((value + 1) * 10) * 10 ^ rest.length := Nat.mul_le_mul_right _ (by omega)
      _ = (value + 1) * 10 ^ (c :: rest).length := by rw [List.length_cons, Nat.pow_succ']; ring

/-- A number has no shorter text than its digits. -/
theorem Numeral.length_decimal_le (numeral : Numeral text n) : (decimal n).length ≤ text.length := by
  obtain ⟨sign, digits, -, some, allDigits, rfl, rfl⟩ := numeral
  have below := ofDigitChars_lt allDigits 0
  rw [Nat.zero_add, Nat.one_mul] at below
  have short := Nat.toDigits_length 10 _ digits.length (List.length_pos_iff.mpr some) below
  rw [List.length_append]
  exact short.trans (Nat.le_add_left ..)

theorem Padded.length_le (padded : Padded text core) : core.length ≤ text.length := by
  obtain ⟨before, after, -, -, rfl⟩ := padded
  simp only [List.length_append]
  omega

theorem Field.length_decimal_le (field : Field text n) : (decimal n).length ≤ text.length := by
  obtain ⟨core, padded, numeral⟩ := field
  exact numeral.length_decimal_le.trans padded.length_le

end Text

namespace TableConfig

open Text (Field)

variable {config : TableConfig} {text : List Char} {numbers : List Nat}

/-- A configuration that is written with a number although its word alone stands for it. -/
def IsDefault (config : TableConfig) : Prop :=
  config = .vector 0 ∨ config = .hashedSkipLists {} ∨ config = .hashedChains {}

/-- The numbers that are written are the first ones of any that a configuration takes. -/
theorem Takes.fields_prefix (takes : Takes numbers config) (given : ¬ config.IsDefault) :
    config.fields <+: numbers := by
  cases takes with
  | vector => exact absurd (.inl rfl) given
  | hashedSkipLists => exact absurd (.inr (.inl rfl)) given
  | hashedChains => exact absurd (.inr (.inr rfl)) given
  | skipList | vectorCount | hashedSkipListsBuckets | hashedChainsBuckets | cuckoo => simp [fields]
  | hashedSkipListsTowers | hashedChainsPages =>
    simp only [fields]
    split <;> simp
  | cuckooEntries =>
    simp only [fields, ne_eq, not_true_eq_false, if_false]
    split <;> simp
  | cuckooHashes =>
    simp only [fields]
    split_ifs <;> simp

theorem intercalate_colon (first : List Char) (fields : List (List Char)) :
    [':'].intercalate (first :: fields) = first ++ fields.flatMap (':' :: ·) := by
  induction fields generalizing first with
  | nil => simp
  | cons field rest ih => simp [List.intercalate_cons_cons, ih]

theorem length_flatMap_decimal_le {fields : List (List Char)} (spelled : List.Forall₂ Field fields numbers) :
    (numbers.flatMap fun n => ':' :: Text.decimal n).length ≤ (fields.flatMap (':' :: ·)).length := by
  induction spelled with
  | nil => exact le_rfl
  | cons field _ ih =>
    simp only [List.flatMap_cons, List.length_append, List.length_cons]
    have digits := field.length_decimal_le
    omega

/-- No text for a configuration is shorter than its word and the numbers that it takes there. -/
theorem Spells.length_le (spells : Spells text config) : ∃ numbers, Takes numbers config ∧
    (word config.kind ++ numbers.flatMap fun n => ':' :: Text.decimal n).length ≤ text.length := by
  obtain ⟨first, fields, numbers, padded, paddedWord, spelled, takes⟩ := spells
  refine ⟨numbers, takes, le_trans ?_ padded.length_le⟩
  rw [intercalate_colon, List.length_append, List.length_append]
  exact Nat.add_le_add paddedWord.length_le (length_flatMap_decimal_le spelled)

theorem spells_word (takes : Takes [] config) : Spells (word config.kind) config :=
  ⟨word config.kind, [], [], by simpa using Text.padded_refl _, Text.padded_refl _, .nil, takes⟩

/-- A configuration is written as short as it can be, unless a word alone stands for it that is written
with a number. -/
theorem print_shortest_iff (config : TableConfig) :
    (∀ text, parse text = .ok config → (print config).length ≤ text.length) ↔
      ¬ config.IsDefault := by
  constructor
  · intro shortest given
    have short := fun takes => shortest (word config.kind) (parse_eq_ok_iff.mpr (spells_word takes))
    rcases given with rfl | rfl | rfl
    · exact absurd (short .vector) (by decide)
    · exact absurd (short .hashedSkipLists) (by decide)
    · exact absurd (short .hashedChains) (by decide)
  · intro given text read
    obtain ⟨numbers, takes, long⟩ := (parse_eq_ok_iff.mp read).length_le
    obtain ⟨more, rfl⟩ := takes.fields_prefix given
    refine le_trans ?_ long
    rw [List.flatMap_append, ← List.append_assoc, List.length_append]
    exact Nat.le_add_right ..

/-- A vector table without room is written longer than a text that is read as it. -/
theorem vector_not_shortest : parse "vector".toList = .ok (.vector 0) ∧
    "vector".toList.length < (print (.vector 0)).length := by
  decide

end TableConfig

end WriteBuffer
