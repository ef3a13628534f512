import WriteBuffer.PrefixRule

/-!
The placement of entries into buckets: by the hash of the group of the user key, so the entries of
one group share a bucket.
-/
namespace WriteBuffer

/-- How user keys are grouped and how groups are hashed. -/
structure Placement where
  rule : PrefixRule
  hash : Bytes → UInt64

/-- The bucket of a user key, among `count` buckets. -/
def Placement.bucketOf (placement : Placement) (count : Nat) (userKey : Bytes) :
    Except Failure Nat := do
  let group ← placement.rule.groupOf userKey
  if count = 0 then throw .noBuckets
  return (placement.hash group).toNat % count

end WriteBuffer
