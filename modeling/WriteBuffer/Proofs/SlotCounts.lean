import Mathlib
import WriteBuffer.Config.Basic

/-!
The number of slots of a cuckoo table. It comes out of a division of floats, and what is bounded there is
zero or a normal number from one on (`UpTo`). Rounding keeps such a bound if the number was below it
(`upTo_round`), so a count of entries below `2 ^ 62` is at most that as a float (`upTo_ofNat`), and divided
by the expected occupancy at most `2 ^ 63` (`UpTo.div`). Cutting off its fraction does not make it more
(`UpTo.toInt_le`), so one slot can always be added (`CuckooOptions.slotCount_eq`).
-/
namespace WriteBuffer

open Float.Model
open Float.Model.UnpackedFloat (Accuracy ExtendedMantissa Sign decreaseExponent divCore packComponents
  packedZero roundToInt roundWithAccuracy shiftToExponent shiftToTargetExponent
  unpackExponent_packComponents unpackMantissa_packComponents)

section Mantissas

theorem mantissa_shiftRight (extended : ExtendedMantissa) (amount : Nat) :
    (extended >>> amount).mantissa = extended.mantissa / 2 ^ amount := by
  show (amount.repeat ExtendedMantissa.shiftRightOne extended).mantissa = _
  induction amount with
  | zero => simp [Nat.repeat]
  | succ amount ih =>
    rw [Nat.repeat, ExtendedMantissa.shiftRightOne, ih, Nat.pow_succ, Nat.div_div_eq_div_mul]

theorem mantissa_ofMantissaAndAccuracy (mantissa : Nat) (accuracy : Accuracy) :
    (ExtendedMantissa.ofMantissaAndAccuracy mantissa accuracy).mantissa = mantissa := by
  match accuracy with
  | .exact | .inexact .lt | .inexact .eq | .inexact .gt => rfl

theorem roundedMantissa_cases (extended : ExtendedMantissa) :
    extended.roundedMantissa = extended.mantissa ∨
      extended.roundedMantissa = extended.mantissa + 1 := by
  obtain ⟨mantissa, roundBit, stickyBit⟩ := extended
  cases roundBit <;> cases stickyBit <;>
    simp [ExtendedMantissa.roundedMantissa, ExtendedMantissa.accuracy, Accuracy.roundToNearestEven]
  omega

theorem leading_bits {mantissa : Nat} (wide : 2 ^ 52 ≤ mantissa) :
    2 ^ 52 ≤ mantissa / 2 ^ (mantissa.log2 - 52) ∧
      mantissa / 2 ^ (mantissa.log2 - 52) < 2 ^ 53 := by
  have bits : 52 ≤ mantissa.log2 := (Nat.le_log2 (by omega)).mpr wide
  constructor
  · rw [Nat.le_div_iff_mul_le (by positivity), ← Nat.pow_add,
      show 52 + (mantissa.log2 - 52) = mantissa.log2 by omega]
    exact Nat.log2_self_le (by omega)
  · rw [Nat.div_lt_iff_lt_mul (by positivity), ← Nat.pow_add,
      show 53 + (mantissa.log2 - 52) = mantissa.log2 + 1 by omega]
    exact Nat.lt_log2_self

theorem cut_fits {bound mantissa exponent cut : Nat} (large : 2 ^ cut ≤ mantissa)
    (small : mantissa * 2 ^ exponent < 2 ^ bound) :
    (mantissa / 2 ^ cut + 1) * 2 ^ (cut + exponent) ≤ 2 ^ bound := by
  have room : cut + exponent < bound := by
    have less := (Nat.mul_le_mul_right (2 ^ exponent) large).trans_lt small
    rw [← Nat.pow_add] at less
    exact (Nat.pow_lt_pow_iff_right (by decide)).mp less
  have split : 2 ^ bound = 2 ^ (bound - (cut + exponent)) * 2 ^ (cut + exponent) := by
    rw [← Nat.pow_add, Nat.sub_add_cancel room.le]
  rw [split]
  refine Nat.mul_le_mul_right _ (Nat.succ_le_of_lt ?_)
  rw [Nat.div_lt_iff_lt_mul (by positivity)]
  refine Nat.lt_of_mul_lt_mul_right (a := 2 ^ exponent) ?_
  rwa [Nat.mul_assoc, ← Nat.pow_add, ← split]

end Mantissas

section Rounding

variable {bound mantissa exponent : Nat} {float : UnpackedFloat}

/-- A float is zero, or it has a full mantissa and is, whatever its sign, from one to `2 ^ bound`. -/
def UpTo (bound : Nat) : UnpackedFloat → Prop
  | .zero _ => True
  | .finite _ mantissa exponent _ => mantissa.log2 = 52 ∧
    ∃ shifted : Nat, exponent = shifted - 52 ∧ mantissa * 2 ^ shifted ≤ 2 ^ (bound + 52)
  | .infinity _ | .notANumber => False

theorem targetExponent_eq {total : Int} (normal : -1021 ≤ total) :
    Format.binary64.targetExponent total = total - 53 := by
  simp only [Format.targetExponent, Format.minExponent, Format.mantissaBits]
  omega

theorem shiftToTarget_eq (exponent : Nat) (wide : 2 ^ 52 ≤ mantissa) (accuracy : Accuracy) :
    ∃ extended, shiftToTargetExponent .binary64 mantissa (exponent - 52) accuracy
        = (extended, ((mantissa.log2 - 52 + exponent : Nat) : Int) - 52)
      ∧ extended.mantissa = mantissa / 2 ^ (mantissa.log2 - 52) := by
  have bits : 52 ≤ mantissa.log2 := (Nat.le_log2 (by omega)).mpr wide
  have amount : (Format.binary64.targetExponent (totalExponent mantissa (exponent - 52))
      - (exponent - 52)).toNat = mantissa.log2 - 52 := by
    rw [totalExponent, targetExponent_eq (by omega)]
    omega
  refine ⟨ExtendedMantissa.ofMantissaAndAccuracy mantissa accuracy >>> (mantissa.log2 - 52), ?_, ?_⟩
  · rw [shiftToTargetExponent, shiftToExponent, amount]
    simp only [Prod.mk.injEq, true_and]
    omega
  · rw [mantissa_shiftRight, mantissa_ofMantissaAndAccuracy]

theorem upTo_round (sign : Sign) (accuracy : Accuracy) (wide : 2 ^ 52 ≤ mantissa)
    (small : mantissa * 2 ^ exponent < 2 ^ (bound + 52)) :
    UpTo bound (roundWithAccuracy .binary64 sign mantissa (exponent - 52) accuracy) := by
  obtain ⟨extended, first, cut⟩ := shiftToTarget_eq exponent wide accuracy
  obtain ⟨low, _⟩ := leading_bits wide
  rw [← cut] at low
  have rounded := roundedMantissa_cases extended
  -- Rounding may have made the mantissa one bit longer, so it is shifted again.
  have wide' : 2 ^ 52 ≤ extended.roundedMantissa := by omega
  obtain ⟨final, second, cutAgain⟩ := shiftToTarget_eq
    (mantissa.log2 - 52 + exponent) wide' .exact
  obtain ⟨finalLow, finalHigh⟩ := leading_bits wide'
  rw [← cutAgain] at finalLow finalHigh
  have fits : extended.roundedMantissa * 2 ^ (mantissa.log2 - 52 + exponent) ≤ 2 ^ (bound + 52) := by
    have large : 2 ^ (mantissa.log2 - 52) ≤ mantissa :=
      (Nat.pow_le_pow_right (by decide) (by omega)).trans (Nat.log2_self_le (by omega))
    exact (Nat.mul_le_mul_right _ (by omega)).trans (cut_fits large small)
  rw [roundWithAccuracy, first]
  simp only
  rw [second]
  simp only [show final.mantissa ≠ 0 by omega, dite_false, UpTo]
  refine ⟨(Nat.log2_eq_iff (by omega)).mpr ⟨finalLow, finalHigh⟩, _, rfl, ?_⟩
  refine Nat.le_trans ?_ fits
  rw [cutAgain, Nat.pow_add, ← Nat.mul_assoc]
  exact Nat.mul_le_mul_right _ (Nat.div_mul_le_self _ _)

end Rounding

section Packing

variable {bound mantissa shifted : Nat} {float : UnpackedFloat}

theorem toNat_leading (low : 2 ^ 52 ≤ mantissa) (high : mantissa < 2 ^ 53) :
    (1#1 ++ BitVec.ofNat 52 mantissa).toNat = mantissa := by
  have split := Nat.two_pow_add_eq_or_of_lt (i := 52) (Nat.mod_lt mantissa (by decide)) 1
  rw [Nat.mul_comm] at split
  rw [BitVec.toNat_append, BitVec.toNat_ofNat, Nat.shiftLeft_eq]
  refine split.symm.trans ?_
  omega

theorem toNat_biased (small : shifted ≤ 64) :
    (BitVec.ofNat 11 (shifted + 1023)).toNat = shifted + 1023 := by
  rw [BitVec.toNat_ofNat]
  omega

theorem pack_normal (sign : Sign) (positive : 0 < mantissa) (bits : mantissa.log2 = 52)
    (small : shifted ≤ 64) :
    UnpackedFloat.pack .binary64 (.finite sign mantissa (shifted - 52) positive)
      = packComponents .binary64 sign (BitVec.ofNat _ (shifted + 1023)) (BitVec.ofNat _ mantissa) := by
  have biased : ((shifted : Int) - 52 + Format.binary64.exponentBias
      + Format.binary64.mantissaBitsWithoutImplicit).toNat = shifted + 1023 := by
    simp only [Format.exponentBias]
    omega
  simp only [UnpackedFloat.pack, biased]
  rw [if_neg (by simp; omega), if_pos (by rw [bits]; rfl)]

/-- A float that is stored and read again stays as it is. -/
theorem UpTo.repack (upTo : UpTo bound float) (le : bound ≤ 64) :
    UpTo bound (Float.Model.pack float).unpack := by
  show UpTo bound (UnpackedFloat.unpack .binary64 (UnpackedFloat.pack .binary64 float))
  cases float with
  | infinity | notANumber => exact upTo.elim
  | zero sign => simp [UnpackedFloat.pack, packedZero, UnpackedFloat.unpack, UpTo]
  | finite sign mantissa exponent positive =>
    obtain ⟨bits, shifted, rfl, fits⟩ := upTo
    obtain ⟨low, high⟩ := (Nat.log2_eq_iff (by omega)).mp bits
    have small : shifted ≤ 64 := by
      have powers := (Nat.mul_le_mul_right (2 ^ shifted) low).trans fits
      rw [← Nat.pow_add] at powers
      have := (Nat.pow_le_pow_iff_right (by decide)).mp powers
      omega
    have exponent := toNat_biased small
    have notAll : BitVec.ofNat 11 (shifted + 1023) ≠ -1#11 := by
      intro all
      have : (-1#11).toNat = 2047 := rfl
      rw [← all] at this
      omega
    have notNone : BitVec.ofNat 11 (shifted + 1023) ≠ 0#11 := by
      intro none
      have : (0#11).toNat = 0 := rfl
      rw [← none] at this
      omega
    rw [pack_normal sign positive bits small]
    simp only [UnpackedFloat.unpack, unpackMantissa_packComponents, unpackExponent_packComponents]
    rw [if_neg notAll, if_neg notNone]
    refine ⟨by rw [toNat_leading low high, bits], shifted, ?_, by rwa [toNat_leading low high]⟩
    rw [exponent]
    simp only [Format.exponentBias]
    omega

end Packing

section Operations

variable {bound : Nat} {float : UnpackedFloat}

theorem upTo_ofNat {n : Nat} (less : n < 2 ^ bound) :
    UpTo bound (UnpackedFloat.ofNat .binary64 n) := by
  rcases Nat.eq_zero_or_pos n with rfl | positive
  · simp [UnpackedFloat.ofNat, UnpackedFloat.ofInt, UnpackedFloat.normalize, UpTo]
  have low := Nat.log2_self_le positive.ne'
  have amount : (0 - Format.binary64.targetExponent (totalExponent n 0)).toNat = 52 - n.log2 := by
    rw [totalExponent, targetExponent_eq (by omega)]
    omega
  have filled : UnpackedFloat.ofNat .binary64 n = roundWithAccuracy .binary64 .positive
      (n <<< (52 - n.log2)) ((52 - (52 - n.log2) : Nat) - 52) .exact := by
    have sign : compare (n : Int) 0 = .gt := by
      rw [Int.compare_eq_gt]
      omega
    simp only [UnpackedFloat.ofNat, UnpackedFloat.ofInt, UnpackedFloat.normalize, sign,
      Int.toNat_natCast, UnpackedFloat.round, decreaseExponent, amount]
    congr 1
    omega
  rw [filled]
  refine upTo_round _ _ ?_ ?_
  · rw [Nat.shiftLeft_eq]
    refine le_trans ?_ (Nat.mul_le_mul_right _ low)
    rw [← Nat.pow_add]
    exact Nat.pow_le_pow_right (by decide) (by omega)
  · rw [Nat.shiftLeft_eq, Nat.mul_assoc, ← Nat.pow_add, Nat.pow_add _ bound,
      show 52 - n.log2 + (52 - (52 - n.log2)) = 52 by omega]
    exact Nat.mul_lt_mul_of_pos_right less (by positivity)

theorem divCore_eq {mantissa divisor : Nat} (shifted : Nat) (bits : mantissa.log2 = 52)
    (divisorBits : divisor.log2 = 52) : divCore .binary64 mantissa (shifted - 52) divisor (-53)
      = (mantissa <<< 53 / divisor, (shifted : Int) - 52,
        UnpackedFloat.accuracyOfFraction (mantissa <<< 53 % divisor) divisor) := by
  have target : min ((shifted : Int) - 52 - -53) (Format.binary64.targetExponent
      (totalExponent mantissa (shifted - 52) - totalExponent divisor (-53))) = shifted - 52 := by
    rw [totalExponent, totalExponent, bits, divisorBits, targetExponent_eq (by omega)]
    omega
  simp only [divCore, target, show ((shifted : Int) - 52 - -53 - (shifted - 52)).toNat = 53 by omega]

/-- Dividing by a number between a half and one at most doubles. -/
theorem UpTo.div (upTo : UpTo bound float) (sign : Sign) {divisor : Nat} (positive : 0 < divisor)
    (low : 2 ^ 52 < divisor) (high : divisor < 2 ^ 53) :
    UpTo (bound + 1) (UnpackedFloat.div .binary64 float (.finite sign divisor (-53) positive)) := by
  cases float with
  | infinity | notANumber => exact upTo.elim
  | zero => exact trivial
  | finite _ mantissa exponent _ =>
    obtain ⟨bits, shifted, rfl, fits⟩ := upTo
    obtain ⟨full, _⟩ := (Nat.log2_eq_iff (by omega)).mp bits
    have doubled : mantissa <<< 53 / divisor < 2 * mantissa := by
      rw [Nat.shiftLeft_eq, Nat.div_lt_iff_lt_mul positive]
      nlinarith
    rw [UnpackedFloat.div, divCore_eq shifted bits ((Nat.log2_eq_iff (by omega)).mpr ⟨low.le, high⟩)]
    refine upTo_round _ _ ?_ ?_
    · rw [Nat.shiftLeft_eq, Nat.le_div_iff_mul_le positive]
      nlinarith
    · calc mantissa <<< 53 / divisor * 2 ^ shifted < 2 * mantissa * 2 ^ shifted :=
            Nat.mul_lt_mul_of_pos_right doubled (by positivity)
        _ ≤ 2 * 2 ^ (bound + 52) := by
            rw [Nat.mul_assoc]
            exact Nat.mul_le_mul_left 2 fits
        _ = 2 ^ (bound + 1 + 52) := by ring

theorem roundToInt_eq (sign : Sign) (mantissa shifted : Nat) :
    roundToInt sign mantissa (shifted - 52)
      = sign.apply (mantissa * 2 ^ (shifted - 52) / 2 ^ (52 - shifted) : Nat) := by
  have decreased : decreaseExponent mantissa (shifted - 52) 0
      = (mantissa * 2 ^ (shifted - 52), -((52 - shifted : Nat) : Int)) := by
    simp only [decreaseExponent, Nat.shiftLeft_eq,
      show ((shifted : Int) - 52 - 0).toNat = shifted - 52 by omega]
    congr 1
    omega
  simp only [roundToInt, decreased, shiftToExponent, mantissa_shiftRight,
    mantissa_ofMantissaAndAccuracy,
    show (0 - -((52 - shifted : Nat) : Int)).toNat = 52 - shifted by omega]

theorem UpTo.toInt_le (upTo : UpTo bound float) (least greatest : Int) :
    (float.toInt least greatest).toNat ≤ 2 ^ bound := by
  cases float with
  | infinity | notANumber => exact upTo.elim
  | zero => exact Nat.zero_le _
  | finite sign mantissa exponent _ =>
    obtain ⟨_, shifted, rfl, fits⟩ := upTo
    have small : mantissa * 2 ^ (shifted - 52) / 2 ^ (52 - shifted) ≤ 2 ^ bound := by
      refine Nat.div_le_of_le_mul (Nat.le_of_mul_le_mul_right ?_ (show 0 < 2 ^ 52 by decide))
      calc mantissa * 2 ^ (shifted - 52) * 2 ^ 52 = mantissa * 2 ^ shifted * 2 ^ (52 - shifted) := by
            rw [Nat.mul_assoc, Nat.mul_assoc, ← Nat.pow_add, ← Nat.pow_add]
            congr 2
            omega
        _ ≤ 2 ^ (bound + 52) * 2 ^ (52 - shifted) := Nat.mul_le_mul_right _ fits
        _ = 2 ^ (52 - shifted) * 2 ^ bound * 2 ^ 52 := by ring
    rw [UnpackedFloat.toInt, roundToInt_eq]
    cases sign with
    | positive => exact small
    | negative =>
      rw [Sign.apply, Int.toNat_of_nonpos (Int.neg_nonpos_of_nonneg (Int.natCast_nonneg _))]
      exact Nat.zero_le _

end Operations

namespace CuckooOptions

theorem toNat_ofNatClamp_le (n : Nat) : (UInt64.ofNatClamp n).toNat ≤ n := by
  rw [UInt64.ofNatClamp]
  split
  · exact (UInt64.toNat_ofNatLT ..).le
  · exact (UInt64.toNat_ofNatLT ..).le.trans (by omega)

theorem slotsFor_le (options : CuckooOptions) {entryBytes : Nat} (large : 4 ≤ entryBytes) :
    options.slotsFor entryBytes ≤ 2 ^ 63 := by
  have few : (UInt64.ofNat (options.writeBufferSize.toNat / entryBytes)).toNat < 2 ^ 62 := by
    refine (Nat.mod_le _ _).trans_lt ((Nat.div_le_div_left large (by decide)).trans_lt ?_)
    have := options.writeBufferSize.toNat_lt
    omega
  have counted := (upTo_ofNat few).repack (by decide)
  obtain ⟨sign, positive, parts⟩ : ∃ sign positive, occupancy.toModel.unpack
      = .finite sign 6305039478318694 (-53) positive := ⟨.positive, by decide, rfl⟩
  have divided := (counted.div sign positive (by decide) (by decide)).repack (by decide)
  rw [← parts] at divided
  exact (toNat_ofNatClamp_le _).trans (divided.toInt_le _ _)

/-- The size of a slot with its entry is the only sum that overflows. -/
theorem slotCount_eq (options : CuckooOptions) : options.slotCount = (do
    return options.slotsFor (← checkedSum options.averageDataSize.toNat 4) + 1) := by
  rw [slotCount, checkedSum]
  split
  · have few := options.slotsFor_le (Nat.le_add_left 4 options.averageDataSize.toNat)
    exact if_pos (Nat.lt_of_le_of_lt (Nat.succ_le_succ few) (by decide))
  · rfl

theorem slotCount_cases (options : CuckooOptions) :
    (UInt64.size ≤ options.averageDataSize.toNat + 4 ∧ options.slotCount = .error .overflow) ∨
    (options.averageDataSize.toNat + 4 < UInt64.size ∧
      ∃ slots, options.slotCount = .ok slots ∧ 0 < slots) := by
  rw [slotCount_eq, checkedSum]
  by_cases small : options.averageDataSize.toNat + 4 < UInt64.size
  · rw [if_pos small]
    exact .inr ⟨small, _, rfl, Nat.succ_pos _⟩
  · rw [if_neg small]
    exact .inl ⟨Nat.le_of_not_lt small, rfl⟩

end CuckooOptions

end WriteBuffer
