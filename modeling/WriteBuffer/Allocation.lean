import WriteBuffer.Bytes
import WriteBuffer.Failure

/-!
Sizes of memory. A sum of sizes has to be a 64-bit number, and whatever takes memory of a size that the
user chooses, a buffer or an array of slots, fails beyond the limit of one allocation.
-/
namespace WriteBuffer

/-- The sum of two sizes, as a 64-bit number. -/
def checkedSum (a b : Nat) : Except Failure Nat :=
  if a + b < UInt64.size then .ok (a + b) else .error .overflow

/-- The most bytes that one allocation may hold. -/
def allocationLimit : Nat := UInt64.size / 2 - 1

/-- Fails unless `count` items of a size fit into one allocation. -/
def requireAllocatable (count itemSize : Nat) : Except Failure Unit :=
  if count * itemSize ≤ allocationLimit then .ok () else .error .overflow

def zeroedBuffer (length : Nat) : Except Failure Bytes := do
  requireAllocatable length 1
  return List.replicate length 0

end WriteBuffer
