import WriteBuffer.Cursor.Run
import WriteBuffer.Sorting
import WriteBuffer.Table.Basic

/-!
Tables that append entries as they come and sort them once, at the first read. After the sort
nothing can be inserted. A sort that breaks off on an entry without a readable key has already taken
the handles out, so it leaves the table without entries.
-/
namespace WriteBuffer

/-- Handles in the order of insertion, or sorted; `capacity` is the number of handles that there is
room for. -/
structure VectorIndex where
  handles : List Handle := []
  capacity : Nat := 0
  sorted : Bool := false
deriving DecidableEq, Repr

namespace VectorIndex

/-- Appends a handle, doubling the room when there is none left. -/
def push (index : VectorIndex) (handle : Handle) : VectorIndex :=
  { index with
    handles := index.handles ++ [handle]
    capacity := if index.handles.length < index.capacity then index.capacity
      else max (2 * index.capacity) 4 }

def memory (index : VectorIndex) : Nat := 4 * index.capacity

end VectorIndex

/-- A table that appends entries and sorts them at the first read. -/
abbrev VectorTable := Table VectorIndex

namespace VectorTable

def create (shelf : Shelf) (count : Nat) : Except Failure VectorTable := do
  requireAllocatable count 4
  return { shelf, index := { capacity := count } }

/-- Publishes and appends an entry. -/
def insert (draft : Draft) : VectorTable → Outcome VectorTable Unit :=
  Table.asWriter .vector <| Table.takeIn draft
    (fun table => if table.index.sorted then .error .alreadySorted else .ok ())
    fun _ table => .ok { table with index := table.index.push draft.handle }

/-- The handles in order, sorted now if they were not before. -/
def sortedHandles (table : VectorTable) : Outcome VectorTable (List Handle) :=
  if table.index.sorted then (table, .ok table.index.handles)
  else
    match sortStable table.shelf.compareHandles table.index.handles with
    | .error failure => ({ table with index := {} }, .error failure)
    | .ok handles =>
      ({ table.report (.sorted handles.length) with
          index := { table.index with handles, sorted := true } },
        .ok handles)

/-- Whether the table has an entry with an internal key equal to the given one. -/
def contains (table : VectorTable) (internalKey : Bytes) : Outcome VectorTable Bool :=
  let (table, sorted) := table.sortedHandles
  (table, do
    let (found, _) ← binarySearch (table.shelf.compareKey · internalKey) (← sorted)
    return found)

/-- A cursor over the entries, which are sorted from now on. -/
def cursor (table : VectorTable) : Outcome VectorTable RunCursor :=
  let (table, sorted) := table.sortedHandles
  (table, sorted.map fun handles => { handles })

/-- Makes the table read-only; the first time this sorts it. -/
def close (table : VectorTable) : Outcome VectorTable Unit :=
  let closed := Table.close .vector table
  if table.isReadOnly then (closed, .ok ())
  else
    let (table, sorted) := sortedHandles closed
    (table, sorted.map fun _ => ())

end VectorTable

end WriteBuffer
