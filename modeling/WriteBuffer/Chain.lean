import WriteBuffer.Cursor.Moves
import WriteBuffer.Store.Shelf

/-!
Sorted chains of nodes in a common store: each node has one link, and a chain is the place of its
first node.
-/
namespace WriteBuffer

/-- A handle with the link to the next node. -/
structure ChainNode where
  handle : Handle
  next : Option NodeId
deriving DecidableEq, Repr

/-- The nodes of all chains of a table. -/
abbrev ChainStore := ChunkStore ChainNode

namespace ChainStore

/-- The nodes from a place on, in at most `fuel` steps. -/
def nodesFrom (nodes : ChainStore) : (fuel : Nat) → Option NodeId →
    Except Failure (List (NodeId × Handle))
  | _, none => .ok []
  | 0, some _ => .error .endlessChain
  | fuel + 1, some id =>
    match nodes.get? id with
    | none => .error (.brokenChain id)
    | some node => do return (id, node.handle) :: (← nodesFrom nodes fuel node.next)

/-- The nodes of the chain that begins at a place, in order. -/
def chain (nodes : ChainStore) (start : Option NodeId) : Except Failure (List (NodeId × Handle)) :=
  nodesFrom nodes nodes.size start

/-- The first node of a chain whose handle is not below the target. -/
def seekIn (below : Handle → Except Failure Bool) :
    List (NodeId × Handle) → Except Failure (Option (NodeId × Handle))
  | [] => .ok none
  | node :: rest => do if ← below node.2 then seekIn below rest else return some node

/-- The nodes between which an entry belongs, unless the chain has an entry equal to it. -/
def gapIn (compare : Handle → Except Failure Ordering) (previous : Option NodeId) :
    List (NodeId × Handle) → Except Failure (Option NodeId × Option NodeId)
  | [] => .ok (previous, none)
  | (id, handle) :: rest => do
    match ← compare handle with
    | .lt => gapIn compare (some id) rest
    | .eq => throw (.duplicateKey .chain)
    | .gt => return (previous, some id)

/-- The node in front of a given one. -/
def before (target : NodeId) : List (NodeId × Handle) → Option NodeId
  | (id, _) :: (next, handle) :: rest =>
    if next = target then some id else before target ((next, handle) :: rest)
  | _ => none

/-- Cursors over the chain that begins at a place. -/
def moves (nodes : ChainStore) (start : Option NodeId) (shelf : Shelf) :
    Moves (Option NodeId) where
  valid place := place.isSome
  entry place := atPlace place fun id =>
    match nodes.get? id with
    | none => .error (.brokenChain id)
    | some node => shelf.arena.get node.handle
  next place := atPlace place fun id =>
    match nodes.get? id with
    | none => .error (.brokenChain id)
    | some node => .ok node.next
  prev place := atPlace place fun id => do return before id (← nodes.chain start)
  seek internalKey _ := do
    return (← seekIn (shelf.isBelowKey internalKey) (← nodes.chain start)).map (·.1)
  first _ := .ok start
  last _ := do return (← nodes.chain start).getLast?.map (·.1)
  span _ := nodes.size

end ChainStore

end WriteBuffer
