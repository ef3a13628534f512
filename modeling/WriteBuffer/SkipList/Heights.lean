import WriteBuffer.SkipList.Basic

/-!
A source of tower heights for tables that are run. No answer of a skip list depends on the heights; they
are drawn so that each level holds about one in `branching` of the nodes below it.
-/
namespace WriteBuffer

/-- Scrambles a number so that its bits look drawn at random. -/
def scramble (n : UInt64) : UInt64 :=
  let n := n * 0x9E3779B97F4A7C15 + 0x9E3779B97F4A7C15
  let n := (n ^^^ (n >>> 30)) * 0xBF58476D1CE4E5B9
  let n := (n ^^^ (n >>> 27)) * 0x94D049BB133111EB
  n ^^^ (n >>> 31)

/-- The number of zeros at which the digits of a number begin, at most `bound`. -/
def leadingZeroDigits (branching : Nat) : (bound n : Nat) → Nat
  | 0, _ => 0
  | bound + 1, n =>
    if n % branching = 0 then leadingZeroDigits branching bound (n / branching) + 1 else 0

/-- Heights of which each is reached by one in `branching` of the nodes that reach the one below. -/
def geometricHeights (branching : Nat) : Heights := fun index =>
  leadingZeroDigits branching heightLimit (scramble (UInt64.ofNat index)).toNat + 1

end WriteBuffer
