import WriteBuffer.Cursor.Moves
import WriteBuffer.Entry.Record
import WriteBuffer.PrefixRule

/-!
Cursors that stay within one group of user keys. Seeking opens a cursor over the bucket of the
target; as soon as that cursor leaves the group it is dropped, so entries of other groups that share
the bucket are never shown.
-/
namespace WriteBuffer

/-- The group sought last and a cursor within it. -/
structure GroupCursor (ι : Type) where
  group : Bytes := []
  inner : Option ι := none
deriving DecidableEq, Repr

namespace GroupCursor

variable {ι : Type}

/-- Drops the inner cursor unless it is at an entry of the group. -/
def clamp (rule : PrefixRule) (inner : Moves ι) (cursor : GroupCursor ι) :
    Except Failure (GroupCursor ι) :=
  match cursor.inner with
  | none => .ok cursor
  | some place =>
    if inner.valid place then do
      let group ← rule.groupOf (← entryUserKey (← inner.entry place))
      return if group = cursor.group then cursor else { cursor with inner := none }
    else .ok { cursor with inner := none }

/-- Moves the inner cursor, which has to be at an entry. -/
def step (rule : PrefixRule) (inner : Moves ι) (motion : ι → Except Failure ι)
    (cursor : GroupCursor ι) : Except Failure (GroupCursor ι) :=
  atPlace (cursor.inner.filter inner.valid) fun place => do
    clamp rule inner { cursor with inner := some (← motion place) }

/-- Moves within the group of the target sought last. -/
def moves (rule : PrefixRule) (openBucket : Bytes → Except Failure (Option ι)) (inner : Moves ι) :
    Moves (GroupCursor ι) where
  valid cursor := cursor.inner.any inner.valid
  entry cursor := atPlace cursor.inner inner.entry
  next := step rule inner inner.next
  prev := step rule inner inner.prev
  seek internalKey _ := do
    let userKey ← userKeyOf internalKey
    let group ← rule.groupOf userKey
    match ← openBucket userKey with
    | none => return { group }
    | some place => clamp rule inner { group, inner := some (← inner.seek internalKey place) }
  first cursor := .ok { cursor with inner := none }
  last cursor := .ok { cursor with inner := none }
  span cursor := cursor.inner.elim 0 inner.span

end GroupCursor

end WriteBuffer
