import WriteBuffer.Merge
import WriteBuffer.SkipList.Cursor
import WriteBuffer.SkipList.Heights
import WriteBuffer.Store.Sparse
import WriteBuffer.Table.Basic
import WriteBuffer.Table.Cursor
import WriteBuffer.Table.Placement

/-!
Tables that hash the groups of user keys to buckets and keep a skip list in each. A bucket gets its
list when an entry is first offered to it, even if that entry is then refused.
-/
namespace WriteBuffer

/-- Skip lists by bucket, all on one node store. -/
structure HashedSkipIndex where
  placement : Placement
  maxHeight : Nat
  branching : Nat
  heights : Heights
  buckets : Sparse SkipList
  nodes : NodeStore := .empty
  listBytes : Nat := 0

namespace HashedSkipIndex

def bucketOf (index : HashedSkipIndex) (userKey : Bytes) : Except Failure Nat :=
  index.placement.bucketOf index.buckets.size userKey

/-- The list of a user key's bucket, if it has one. -/
def listOf (index : HashedSkipIndex) (userKey : Bytes) : Except Failure (Option SkipList) := do
  return index.buckets.get? (← index.bucketOf userKey)

/-- The memory of a bucket, whether it has a list or not. -/
def bucketSize : Nat := 16

/-- The memory of a list without nodes, which has to be a 64-bit number. -/
def listSize (index : HashedSkipIndex) : Except Failure Nat :=
  let size := 72 + 4 * index.maxHeight
  if size < UInt64.size then .ok size else .error .overflow

def memory (index : HashedSkipIndex) : Nat :=
  bucketSize * index.buckets.size + 32 * index.nodes.allocatedSlots + index.listBytes

end HashedSkipIndex

/-- A table with a skip list in each bucket. -/
abbrev HashedSkipTable := Table HashedSkipIndex

namespace HashedSkipTable

/-- A table of no entries. The heights of its lists are only looked at when one is made. -/
def create (shelf : Shelf) (placement : Placement) (heights : Heights)
    (buckets maxHeight branching : Nat) : Except Failure HashedSkipTable := do
  requireAllocatable buckets HashedSkipIndex.bucketSize
  return {
    shelf
    index := { placement, maxHeight, branching, heights, buckets := .empty buckets } }

/-- The bucket of an entry, its list, which is made if there is none, and the memory that the making
took. -/
def offer (table : HashedSkipTable) (entry : Bytes) : Except Failure (Nat × SkipList × Nat) := do
  let bucket ← table.index.bucketOf (← entryUserKey entry)
  match table.index.buckets.get? bucket with
  | some list => return (bucket, list, 0)
  | none =>
    let taken ← table.index.listSize
    return (bucket, ← SkipList.create table.index.maxHeight table.index.branching, taken)

def setList (table : HashedSkipTable) (bucket : Nat) (list : SkipList) : HashedSkipTable :=
  { table with index := { table.index with buckets := table.index.buckets.put bucket list } }

/-- Publishes an entry and links it into the list of a bucket, unless one with an equal key is there;
`taken` is the memory that the making of the list took. -/
def insertInto (draft : Draft) (bucket : Nat) (list : SkipList) (taken : Nat) :
    HashedSkipTable → Outcome HashedSkipTable Unit :=
  Table.takeIn draft (fun table => list.spliceFor table.index.nodes table.shelf draft.bytes)
    fun splice table => do
      let (nodes, list, height) ←
        list.insertAt table.index.nodes table.index.heights splice draft.handle
      let linked := setList table bucket list
      let listBytes := table.index.listBytes + taken + 4 * height
      return { linked with index := { linked.index with nodes, listBytes } }

/-- Inserts an entry into the list of its bucket. -/
def insert (draft : Draft) : HashedSkipTable → Outcome HashedSkipTable Unit :=
  Table.asWriter .hashedSkipLists fun table =>
    match offer table draft.bytes with
    | .error failure => (table, .error failure)
    | .ok (bucket, list, taken) => insertInto draft bucket list taken (setList table bucket list)

def contains (table : HashedSkipTable) (internalKey : Bytes) : Except Failure Bool := do
  match ← table.index.listOf (← userKeyOf internalKey) with
  | none => return false
  | some list => list.contains table.index.nodes table.shelf internalKey

/-- Moves along the list of a bucket; a bucket without a list has no entries. -/
def listMoves (table : HashedSkipTable) (bucket : Nat) : Moves (Option NodeId) :=
  let list := (table.index.buckets.get? bucket).getD { head := [none] }
  list.moves table.index.nodes table.shelf

/-- A cursor along the list of a user key's bucket, if the bucket has one. -/
def bucketCursor (table : HashedSkipTable) (userKey : Bytes) :
    Except Failure (Option BucketCursor) := do
  let bucket ← table.index.bucketOf userKey
  return (table.index.buckets.get? bucket).map fun _ => { bucket }

/-- The handles of all entries in order, merged from the lists of the buckets. -/
def sortedHandles (table : HashedSkipTable) : Except Failure (List Handle) := do
  let runs ← table.index.buckets.values.mapM (·.handles table.index.nodes)
  mergeRuns table.shelf.compareHandles runs

end HashedSkipTable

end WriteBuffer
