import WriteBuffer.Chain
import WriteBuffer.Merge
import WriteBuffer.Store.Sparse
import WriteBuffer.Table.Basic
import WriteBuffer.Table.Cursor
import WriteBuffer.Table.Placement

/-!
Tables that hash the groups of user keys to buckets and keep a sorted chain of nodes in each.
-/
namespace WriteBuffer

/-- The first nodes of the chains by bucket, and all nodes in one store. -/
structure HashedChainIndex where
  placement : Placement
  heads : Sparse NodeId
  nodes : ChainStore := .empty

namespace HashedChainIndex

def bucketOf (index : HashedChainIndex) (userKey : Bytes) : Except Failure Nat :=
  index.placement.bucketOf index.heads.size userKey

def chainOf (index : HashedChainIndex) (bucket : Nat) : Except Failure (List (NodeId × Handle)) :=
  index.nodes.chain (index.heads.get? bucket)

/-- Makes a node the one behind a place in the chain of a bucket; `none` is the place in front. -/
def relink (index : HashedChainIndex) (bucket : Nat) (place : Option NodeId) (target : NodeId) :
    HashedChainIndex :=
  match place with
  | none => { index with heads := index.heads.put bucket target }
  | some id =>
    { index with nodes := index.nodes.update id fun node => { node with next := some target } }

/-- Links a handle in at a gap in the chain of a bucket. -/
def link (index : HashedChainIndex) (bucket : Nat) (gap : Option NodeId × Option NodeId)
    (handle : Handle) : Except Failure HashedChainIndex :=
  match index.nodes.push ⟨handle, gap.2⟩ with
  | (_, .error failure) => .error failure
  | (nodes, .ok id) => .ok (relink { index with nodes } bucket gap.1 id)

def bucketSize : Nat := 4

def memory (index : HashedChainIndex) : Nat :=
  bucketSize * index.heads.size + 12 * index.nodes.allocatedSlots

end HashedChainIndex

/-- A table with a sorted chain in each bucket. -/
abbrev HashedChainTable := Table HashedChainIndex

namespace HashedChainTable

/-- A table of no entries. Huge pages are never to be had; a table that asks for them reports so. -/
def create (shelf : Shelf) (placement : Placement) (buckets hugePageSize : Nat) :
    Except Failure HashedChainTable := do
  requireAllocatable buckets HashedChainIndex.bucketSize
  let table := { shelf, index := { placement, heads := .empty buckets } }
  return if hugePageSize = 0 then table
    else table.report
      (.hugePagesUnavailable hugePageSize (buckets * HashedChainIndex.bucketSize))

/-- The bucket of an entry and the gap in its chain, unless an entry with an equal key is there. -/
def placeFor (table : HashedChainTable) (entry : Bytes) :
    Except Failure (Nat × Option NodeId × Option NodeId) := do
  let bucket ← table.index.bucketOf (← entryUserKey entry)
  let chain ← table.index.chainOf bucket
  return (bucket, ← ChainStore.gapIn (table.shelf.compareEntry · entry) none chain)

/-- Publishes an entry and links it into the chain of its bucket, unless one with an equal key is
there. -/
def insert (draft : Draft) : HashedChainTable → Outcome HashedChainTable Unit :=
  Table.asWriter .hashedChains <| Table.takeIn draft (placeFor · draft.bytes)
    fun (bucket, gap) table => do
      return { table with index := ← table.index.link bucket gap draft.handle }

/-- Whether the table has an entry with an internal key equal to the given one. -/
def contains (table : HashedChainTable) (internalKey : Bytes) : Except Failure Bool := do
  let chain ← table.index.chainOf (← table.index.bucketOf (← userKeyOf internalKey))
  match ← ChainStore.seekIn (table.shelf.isBelowKey internalKey) chain with
  | none => return false
  | some (_, handle) => return (← table.shelf.compareKey handle internalKey) == .eq

def listMoves (table : HashedChainTable) (bucket : Nat) : Moves (Option NodeId) :=
  table.index.nodes.moves (table.index.heads.get? bucket) table.shelf

/-- A cursor along the chain of a user key's bucket, if the bucket has entries. -/
def bucketCursor (table : HashedChainTable) (userKey : Bytes) :
    Except Failure (Option BucketCursor) := do
  let bucket ← table.index.bucketOf userKey
  return (table.index.heads.get? bucket).map fun _ => { bucket }

/-- The handles of all entries in order, merged from the chains of the buckets. -/
def sortedHandles (table : HashedChainTable) : Except Failure (List Handle) := do
  let runs ← table.index.heads.values.mapM fun head => table.index.nodes.chain (some head)
  mergeRuns table.shelf.compareHandles (runs.map fun run => run.map (·.2))

end HashedChainTable

end WriteBuffer
