import WriteBuffer.Allocation
import WriteBuffer.Entry.InternalKey

/-!
The layout of a stored entry: the length of the internal key in four bytes, the internal key, the
length of the value in four bytes, the value. There are two readers of it: `Record.decode` checks
every length and refuses what it cannot account for, while `entryKey`, `entryUserKey` and
`entryValue` cut at the stated lengths and fail where there is nothing to cut.
-/
namespace WriteBuffer

/-- The number of bytes that state a length. -/
def lengthSize : Nat := 4

def entrySize (keySize valueSize : Nat) : Nat :=
  lengthSize + keySize + tagSize + lengthSize + valueSize

/-- The size of an entry, as a 64-bit number. -/
def entrySize? (keySize valueSize : UInt64) : Except Failure UInt64 :=
  if entrySize keySize.toNat valueSize.toNat < UInt64.size then
    .ok (UInt64.ofNat (entrySize keySize.toNat valueSize.toNat))
  else .error .overflow

/-- One version of a user key with its value. -/
structure Record where
  userKey : Bytes
  sequence : UInt64
  kind : ValueKind
  value : Bytes
deriving DecidableEq, Repr

namespace Record

def internalKey (record : Record) : InternalKey :=
  ⟨record.userKey, record.sequence, record.kind⟩

def size (record : Record) : Nat :=
  entrySize record.userKey.length record.value.length

/-- The part of an entry in front of the tag. -/
def head (record : Record) : Bytes :=
  littleEndian lengthSize (record.userKey.length + tagSize) ++ record.userKey

/-- Writes an entry into a buffer, front to back. A buffer of another size is left alone; a sequence
number that has no tag stops the writing behind the user key. -/
def write (record : Record) (buffer : Bytes) : Outcome Bytes Unit :=
  if buffer.length ≠ record.size then (buffer, .error .wrongBufferLength)
  else
    match packTag record.sequence record.kind with
    | .error failure => (record.head ++ buffer.drop record.head.length, .error failure)
    | .ok tag =>
      (record.head ++ littleEndian tagSize tag.toNat
        ++ littleEndian lengthSize record.value.length ++ record.value, .ok ())

/-- The entry for a record, written into a fresh buffer. -/
def encode (record : Record) : Except Failure Bytes :=
  let (entry, written) := record.write (List.replicate record.size 0)
  written.map fun _ => entry

/-- The entry for a record, written into a fresh buffer of a length that has to be right. -/
def encodeInto (record : Record) (length : Nat) : Except Failure Bytes := do
  requireAllocatable length 1
  if length ≠ record.size then throw .wrongBufferLength
  record.encode

end Record

/-- The length stated at an offset. -/
def lengthAt (bytes : Bytes) (offset : Nat) : Except Failure Nat :=
  if offset + lengthSize ≤ bytes.length then
    .ok (ofLittleEndian ((bytes.drop offset).take lengthSize))
  else .error .outOfRange

/-- The `length` bytes at an offset. -/
def cut (bytes : Bytes) (offset length : Nat) : Except Failure Bytes :=
  if offset + length ≤ bytes.length then .ok ((bytes.drop offset).take length)
  else .error .outOfRange

def entryKey (entry : Bytes) : Except Failure Bytes := do
  cut entry lengthSize (← lengthAt entry 0)

def entryUserKey (entry : Bytes) : Except Failure Bytes := do
  userKeyOf (← entryKey entry)

/-- The value in an entry; bytes behind it are ignored. -/
def entryValue (entry : Bytes) : Except Failure Bytes := do
  let valueAt := lengthSize + (← lengthAt entry 0)
  cut entry (valueAt + lengthSize) (← lengthAt entry valueAt)

/-- Reads an entry, refusing bytes that are not the whole entry of a record. -/
def Record.decode (entry : Bytes) : Except Corruption Record := do
  if entry.length < lengthSize then throw .entryTooShort
  let keySize := ofLittleEndian (entry.take lengthSize)
  if keySize < tagSize then throw .keyShorterThanTag
  let keyEnd := lengthSize + keySize
  if entry.length < keyEnd + lengthSize then throw .truncatedInKey
  let key ← InternalKey.decode ((entry.drop lengthSize).take keySize)
  let stated := ofLittleEndian ((entry.drop keyEnd).take lengthSize)
  if entry.length ≠ keyEnd + lengthSize + stated then
    throw (.valueLength stated entry.length)
  return ⟨key.userKey, key.sequence, key.kind, entry.drop (keyEnd + lengthSize)⟩

end WriteBuffer
