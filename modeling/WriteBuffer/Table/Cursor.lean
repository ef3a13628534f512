import WriteBuffer.Cursor.Prefix
import WriteBuffer.Cursor.Run

/-!
The cursors that tables hand out: over nothing, over a fixed run of handles, along a linked list,
and within one group of user keys. A cursor along a list holds a bucket and a node and reads the
table as it is at each move; a cursor over a run answers from the handles it was given.
-/
namespace WriteBuffer

/-- The place of a node in the list of a bucket. -/
structure BucketCursor where
  bucket : Nat := 0
  place : Option NodeId := none
deriving DecidableEq, Repr

/-- Moves along the lists of all buckets, from the moves along the list of each. -/
def BucketCursor.moves (lists : Nat → Moves (Option NodeId)) : Moves BucketCursor where
  valid cursor := (lists cursor.bucket).valid cursor.place
  entry cursor := (lists cursor.bucket).entry cursor.place
  next cursor := do
    return { cursor with place := ← (lists cursor.bucket).next cursor.place }
  prev cursor := do
    return { cursor with place := ← (lists cursor.bucket).prev cursor.place }
  seek internalKey cursor := do
    return { cursor with place := ← (lists cursor.bucket).seek internalKey cursor.place }
  first cursor := do
    return { cursor with place := ← (lists cursor.bucket).first cursor.place }
  last cursor := do
    return { cursor with place := ← (lists cursor.bucket).last cursor.place }
  span cursor := (lists cursor.bucket).span cursor.place

/-- A cursor of a table. -/
inductive TableCursor
  | nothing
  | run (cursor : RunCursor)
  | list (cursor : BucketCursor)
  | group (cursor : GroupCursor BucketCursor)
deriving DecidableEq, Repr

namespace TableCursor

/-- Carries out a movement of a cursor by the moves of its kind. -/
def move (runs : Moves RunCursor) (lists : Moves BucketCursor)
    (groups : Moves (GroupCursor BucketCursor)) (motion : Motion) :
    TableCursor → Except Failure TableCursor
  | nothing => (Moves.ofNothing.move motion ()).map fun _ => nothing
  | run cursor => (runs.move motion cursor).map run
  | list cursor => (lists.move motion cursor).map list
  | group cursor => (groups.move motion cursor).map group

/-- Moves of every kind of cursor, from the moves of each kind. -/
def moves (runs : Moves RunCursor) (lists : Moves BucketCursor)
    (groups : Moves (GroupCursor BucketCursor)) : Moves TableCursor where
  valid
    | nothing => false
    | run cursor => runs.valid cursor
    | list cursor => lists.valid cursor
    | group cursor => groups.valid cursor
  entry
    | nothing => Moves.ofNothing.entry ()
    | run cursor => runs.entry cursor
    | list cursor => lists.entry cursor
    | group cursor => groups.entry cursor
  next := move runs lists groups .next
  prev := move runs lists groups .prev
  seek internalKey := move runs lists groups (.seek internalKey)
  first := move runs lists groups .first
  last := move runs lists groups .last
  span
    | nothing => 0
    | run cursor => runs.span cursor
    | list cursor => lists.span cursor
    | group cursor => groups.span cursor

end TableCursor

end WriteBuffer
