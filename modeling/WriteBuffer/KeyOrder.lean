import WriteBuffer.Entry.Record

/-!
Orders on internal keys. A table is built with one order and asks it about encoded internal keys;
an order fails where a key is too short to hold what it looks at.
-/
namespace WriteBuffer

/-- A named order on encoded internal keys. -/
structure KeyOrder where
  name : String
  compareKeys : Bytes → Bytes → Except Failure Ordering

namespace KeyOrder

def compareEntries (order : KeyOrder) (a b : Bytes) : Except Failure Ordering := do
  order.compareKeys (← entryKey a) (← entryKey b)

def compareEntryKey (order : KeyOrder) (entry internalKey : Bytes) : Except Failure Ordering := do
  order.compareKeys (← entryKey entry) internalKey

/-- User keys through `view`, then tags in descending order: one comparison of tags covers the
sequence number and the kind, since the tag holds the one above the other. -/
def newestFirst (view : Bytes → Bytes) (a b : Bytes) : Except Failure Ordering := do
  let userKeys := compare (view (← userKeyOf a)) (view (← userKeyOf b))
  return userKeys.then (compare (← tagOf b) (← tagOf a))

/-- User keys bytewise, versions of one user key newest first. -/
def versioned : KeyOrder where
  name := "lsm.InternalKeyComparator"
  compareKeys := newestFirst id

def reversed : KeyOrder where
  name := "reverse"
  compareKeys a b := versioned.compareKeys b a

/-- User keys bytewise; all versions of one user key are equal. -/
def userKeysOnly : KeyOrder where
  name := "user_only"
  compareKeys a b := do return compare (← userKeyOf a) (← userKeyOf b)

/-- Shorter internal keys first, those of one length in the versioned order. -/
def shorterFirst : KeyOrder where
  name := "length_first"
  compareKeys a b :=
    match compare a.length b.length with
    | .eq => versioned.compareKeys a b
    | unequal => .ok unequal

/-- A byte with the upper-case letters of ASCII made lower-case. -/
def lowerCase (byte : UInt8) : UInt8 :=
  if 65 ≤ byte ∧ byte ≤ 90 then byte + 32 else byte

/-- The versioned order blind to the case of ASCII letters in user keys. -/
def caseBlind : KeyOrder where
  name := "nocase"
  compareKeys := newestFirst (List.map lowerCase)

/-- An order that fails at every question, to find out whether a computation asks one. -/
def refusing : KeyOrder where
  name := ""
  compareKeys _ _ := .error .orderConsulted

end KeyOrder

end WriteBuffer
