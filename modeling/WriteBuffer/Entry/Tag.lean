import WriteBuffer.Bytes
import WriteBuffer.Failure

/-!
The eight-byte tag at the end of an internal key: the sequence number above, the kind of the value
in the low byte. An internal key is a user key followed by a little-endian tag.
-/
namespace WriteBuffer

/-- What a version says about its user key. -/
inductive ValueKind
  | put
  | delete
  | merge
deriving DecidableEq, Repr

/-- The byte that stands for a kind; a lookup uses the largest, that of `merge`. -/
def ValueKind.code : ValueKind → UInt8
  | put => 1
  | delete => 2
  | merge => 3

/-- What is wrong with stored bytes that do not spell an entry or an internal key. -/
inductive Corruption
  | unknownKind (code : UInt8)
  | entryTooShort
  | keyShorterThanTag
  | truncatedInKey
  | valueLength (stated actual : Nat)
deriving DecidableEq, Repr

/-- The words for a corruption. -/
def Corruption.message : Corruption → String
  | unknownKind code => "corruption: invalid value type: " ++ toString code.toNat
  | entryTooShort => "corruption: entry too short"
  | keyShorterThanTag => "corruption: internal key shorter than tag"
  | truncatedInKey => "corruption: entry truncated in key"
  | valueLength stated actual =>
    "corruption: value length " ++ toString stated ++ " does not match entry size "
      ++ toString actual

/-- The kind that a byte stands for. -/
def ValueKind.ofCode (code : UInt8) : Except Corruption ValueKind :=
  if code = 1 then .ok .put
  else if code = 2 then .ok .delete
  else if code = 3 then .ok .merge
  else .error (.unknownKind code)

/-- The largest sequence number: a tag has 56 bits for it. -/
def maxSequence : UInt64 := 72057594037927935

def tagSize : Nat := 8

/-- The tag of a sequence number and a kind. -/
def packTag (sequence : UInt64) (kind : ValueKind) : Except Failure UInt64 :=
  if sequence ≤ maxSequence then .ok (sequence * 256 + kind.code.toUInt64)
  else .error (.sequenceTooLarge sequence)

/-- The sequence number and the kind byte of a tag, which may stand for no kind. -/
def unpackTag (tag : UInt64) : UInt64 × UInt8 :=
  (tag / 256, tag.toUInt8)

/-- The user key in an internal key. -/
def userKeyOf (internalKey : Bytes) : Except Failure Bytes :=
  if tagSize ≤ internalKey.length then .ok (internalKey.take (internalKey.length - tagSize))
  else .error .outOfRange

/-- The tag in an internal key. -/
def tagOf (internalKey : Bytes) : Except Failure UInt64 :=
  if tagSize ≤ internalKey.length then
    .ok (UInt64.ofNat (ofLittleEndian (internalKey.drop (internalKey.length - tagSize))))
  else .error .outOfRange

end WriteBuffer
