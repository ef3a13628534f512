import WriteBuffer.Entry.Tag

/-!
Rules that cut a user key down to the part by which it is grouped. A key outside the domain of a
rule stands for itself.
-/
namespace WriteBuffer

/-- A named rule that assigns an initial part to each user key of its domain. -/
structure PrefixRule where
  name : String
  inDomain : Bytes → Bool
  cutDown : Bytes → Except Failure Bytes

namespace PrefixRule

/-- The part by which a user key is grouped: the whole key outside the domain. -/
def groupOf (rule : PrefixRule) (key : Bytes) : Except Failure Bytes :=
  if rule.inDomain key then rule.cutDown key else .ok key

/-- Whether two user keys are grouped together. -/
def sameGroup (rule : PrefixRule) (a b : Bytes) : Except Failure Bool := do
  return (← rule.groupOf a) == (← rule.groupOf b)

/-- The first `length` bytes of keys that have as many. -/
def fixed (length : Nat) : PrefixRule where
  name := "lsm.FixedPrefix"
  inDomain key := length ≤ key.length
  cutDown key := if length ≤ key.length then .ok (key.take length) else .error .outOfRange

/-- At most the first `length` bytes of any key. -/
def capped (length : Nat) : PrefixRule where
  name := "lsm.CappedPrefix"
  inDomain _ := true
  cutDown key := .ok (key.take length)

def whole : PrefixRule where
  name := "lsm.Noop"
  inDomain _ := true
  cutDown key := .ok key

/-- The part of a key up to and including the first separator, if it has one. -/
def throughFirst (separator : UInt8) : Bytes → Option Bytes
  | [] => none
  | byte :: rest =>
    if byte = separator then some [byte] else (throughFirst separator rest).map (byte :: ·)

/-- Keys with a colon, up to and including the first. -/
def throughColon : PrefixRule where
  name := "colon"
  inDomain key := (throughFirst 58 key).isSome
  cutDown key := match throughFirst 58 key with
    | some part => .ok part
    | none => .error .outOfRange

end PrefixRule

end WriteBuffer
