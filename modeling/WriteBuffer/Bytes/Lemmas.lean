import Mathlib
import WriteBuffer.Bytes

/-!
Bounds on little-endian numbers: a number of fixed width is read back modulo that width
(`ofLittleEndian_littleEndian`), and a byte string spells no number outside its width
(`ofLittleEndian_lt`).
-/
namespace WriteBuffer

/-- Reading back what was written keeps the number modulo its width. -/
theorem ofLittleEndian_littleEndian (width n : Nat) :
    ofLittleEndian (littleEndian width n) = n % 256 ^ width := by
  induction width generalizing n with
  | zero => simp [littleEndian, ofLittleEndian, Nat.mod_one]
  | succ width ih =>
    rw [littleEndian, ofLittleEndian, ih, Nat.pow_succ', Nat.mod_mul]
    simp

theorem ofLittleEndian_lt (bytes : Bytes) : ofLittleEndian bytes < 256 ^ bytes.length := by
  induction bytes with
  | nil => simp [ofLittleEndian]
  | cons b rest ih =>
    have := b.toNat_lt
    simp only [ofLittleEndian, List.length_cons, Nat.pow_succ']
    omega

end WriteBuffer
