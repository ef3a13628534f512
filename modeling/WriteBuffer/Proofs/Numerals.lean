import Mathlib
import WriteBuffer.Text.Blank
import WriteBuffer.Text.Decimal

/-!
Numerals as they are written. They consist of digits (`Text.isDigit_of_mem_decimal`), so no blank and no
sign stands in them, and reading one yields its number if the limit allows it (`Text.below?_decimal`).
-/
namespace WriteBuffer.Text

variable {c : Char} {text : List Char}

theorem isBlank_of_isDigit (digit : c.isDigit) : isBlank c = false := by
  simp only [Char.isDigit, Bool.and_eq_true, decide_eq_true_eq, UInt32.le_iff_toNat_le] at digit
  obtain ⟨least, most⟩ := digit
  have low : 48 ≤ c.toNat := least
  have high : c.toNat ≤ 57 := most
  simp only [isBlank, Bool.or_eq_false_iff, Bool.and_eq_false_iff, decide_eq_false_iff_not]
  omega

theorem trimStart_of_noBlank (noBlank : ∀ c ∈ text, isBlank c = false) : trimStart text = text := by
  cases text with
  | nil => rfl
  | cons c rest => exact List.dropWhile_cons_of_neg (by simp [noBlank c List.mem_cons_self])

theorem trim_of_noBlank (noBlank : ∀ c ∈ text, isBlank c = false) : trim text = text := by
  rw [trim, trimStart_of_noBlank noBlank,
    trimStart_of_noBlank fun c member => noBlank c (List.mem_reverse.mp member), List.reverse_reverse]

theorem digitsFrom?_eq (value : Nat) (digits : ∀ c ∈ text, c.isDigit) :
    digitsFrom? value text = some (Nat.ofDigitChars 10 text value) := by
  rw [Nat.ofDigitChars_eq_foldl]
  induction text generalizing value with
  | nil => rfl
  | cons c rest ih =>
    have first : digit? c = some (c.toNat - '0'.toNat) := if_pos (digits c List.mem_cons_self)
    rw [digitsFrom?, first]
    exact ih _ fun c member => digits c (List.mem_cons_of_mem _ member)

theorem isDigit_of_mem_decimal {n : Nat} (member : c ∈ decimal n) : c.isDigit :=
  Nat.isDigit_of_mem_toDigits (by decide) (by decide) member

theorem unsigned?_decimal (n : Nat) : unsigned? (decimal n) = some n := by
  have spelled : digitsFrom? 0 (decimal n) = some n := by
    rw [digitsFrom?_eq 0 fun c => isDigit_of_mem_decimal, decimal, Nat.ofDigitChars_ten_toDigits]
  obtain ⟨c, rest, shape⟩ := List.exists_cons_of_ne_nil (show decimal n ≠ [] from Nat.toDigits_ne_nil)
  have digit : c.isDigit := isDigit_of_mem_decimal (shape ▸ List.mem_cons_self)
  -- A sign is no digit, so the reading is of the whole numeral.
  have unsigned : c ≠ '+' := by
    rintro rfl
    exact absurd digit (by decide)
  rw [shape] at spelled ⊢
  rw [unsigned?, digits?, spelled]
  · exact List.cons_ne_nil c rest
  · intro tail same
    exact unsigned (List.cons.inj same).1

/-- A numeral is read as its number if that is below the limit. -/
theorem below?_decimal {n limit : Nat} (below : n < limit) : below? limit (decimal n) = some n := by
  rw [below?, unsigned?_decimal, Option.filter_some, if_pos (decide_eq_true below)]

end WriteBuffer.Text
