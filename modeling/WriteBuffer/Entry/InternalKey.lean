import WriteBuffer.Entry.Tag

/-!
Internal keys and lookup keys. Internal keys are ordered by user key, and versions of one user key
newest first; the encoded form is the user key with the tag behind it.
-/
namespace WriteBuffer

/-- One version of a user key. -/
structure InternalKey where
  userKey : Bytes
  sequence : UInt64
  kind : ValueKind
deriving DecidableEq, Repr

namespace InternalKey

/-- The user key followed by the tag. -/
def encode (key : InternalKey) : Except Failure Bytes := do
  let tag ← packTag key.sequence key.kind
  return key.userKey ++ littleEndian tagSize tag.toNat

/-- Reads an encoded internal key. -/
def decode (bytes : Bytes) : Except Corruption InternalKey :=
  match userKeyOf bytes, tagOf bytes with
  | .ok userKey, .ok tag => do
    let (sequence, code) := unpackTag tag
    return ⟨userKey, sequence, ← ValueKind.ofCode code⟩
  | _, _ => .error .keyShorterThanTag

/-- User keys bytewise, then the newer sequence number, then the larger kind first. -/
def compare (a b : InternalKey) : Ordering :=
  (Ord.compare a.userKey b.userKey).then
    ((Ord.compare b.sequence a.sequence).then (Ord.compare b.kind.code a.kind.code))

instance : Ord InternalKey := ⟨compare⟩

def sort (keys : List InternalKey) : List InternalKey :=
  keys.mergeSort fun a b => (compare a b).isLE

end InternalKey

/-- A user key to be read as of a sequence number, as the internal key before which no version
visible to the lookup stands. -/
structure LookupKey where
  internalKey : Bytes
deriving DecidableEq, Repr

namespace LookupKey

/-- The lookup of a user key as of a sequence number. -/
def of (userKey : Bytes) (sequence : UInt64) : Except Failure LookupKey := do
  return ⟨← InternalKey.encode ⟨userKey, sequence, .merge⟩⟩

def userKey (key : LookupKey) : Except Failure Bytes := userKeyOf key.internalKey

def sequence (key : LookupKey) : Except Failure UInt64 := do
  return (unpackTag (← tagOf key.internalKey)).1

end LookupKey

end WriteBuffer
