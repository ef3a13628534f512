import WriteBuffer.SkipList.Cursor
import WriteBuffer.SkipList.Heights
import WriteBuffer.Table.Basic

/-!
Tables that keep all entries in one skip list.
-/
namespace WriteBuffer

/-- A skip list with its own nodes, and the bytes taken by the towers. -/
structure SkipIndex where
  nodes : NodeStore := .empty
  list : SkipList
  heights : Heights
  towerBytes : Nat := 0

namespace SkipIndex

/-- The greatest height of a tower in a table of this kind. -/
def maxHeight : Nat := 12

/-- How much rarer each level is than the one below in a table of this kind. -/
def branching : Nat := 4

def empty (heights : Heights) : SkipIndex where
  list := { head := List.replicate maxHeight none }
  heights

/-- The index after a handle was linked in. -/
def grown (index : SkipIndex) : NodeStore × SkipList × Nat → SkipIndex
  | (nodes, list, height) =>
    { index with nodes, list, towerBytes := index.towerBytes + 4 * height }

/-- Links in the handle of a published entry. -/
def link (index : SkipIndex) (shelf : Shelf) (handle : Handle) : Except Failure SkipIndex := do
  return index.grown (← index.list.insert index.nodes index.heights shelf handle)

def moves (index : SkipIndex) (shelf : Shelf) : Moves (Option NodeId) :=
  index.list.moves index.nodes shelf

def memory (index : SkipIndex) : Nat := 32 * index.nodes.allocatedSlots + index.towerBytes

end SkipIndex

/-- A table that keeps all entries in one skip list. -/
abbrev SkipTable := Table SkipIndex

namespace SkipTable

def create (shelf : Shelf) (heights : Heights) : SkipTable :=
  { shelf, index := .empty heights }

/-- Publishes an entry and links it in, unless one with an equal key is there. -/
def insert (draft : Draft) : SkipTable → Outcome SkipTable Unit :=
  Table.asWriter .skipList <| Table.takeIn draft
    (fun table => table.index.list.spliceFor table.index.nodes table.shelf draft.bytes)
    fun splice table => do
      let index := table.index
      let inserted ← index.list.insertAt index.nodes index.heights splice draft.handle
      return { table with index := index.grown inserted }

def contains (table : SkipTable) (internalKey : Bytes) : Except Failure Bool :=
  table.index.list.contains table.index.nodes table.shelf internalKey

def moves (table : SkipTable) : Moves (Option NodeId) := table.index.moves table.shelf

end SkipTable

end WriteBuffer
