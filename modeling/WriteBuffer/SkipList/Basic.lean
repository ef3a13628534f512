import WriteBuffer.Store.Shelf

/-!
Skip lists over nodes in a common store. A node is linked on the levels of its tower, level 0 holds
every node of a list, and a search goes down from the highest level in use, on each level to the
last node that is below the target. Lists may share a store: a list is no more than its head.
-/
namespace WriteBuffer

/-- A handle with the links of its tower, level 0 first. -/
structure TowerNode where
  handle : Handle
  next : List (Option NodeId)
deriving DecidableEq, Repr

/-- The nodes of one or several skip lists. -/
abbrev NodeStore := ChunkStore TowerNode

/-- The greatest height that towers may be given. -/
def heightLimit : Nat := 32

/-- The height drawn for each node, given the number of nodes stored before it. -/
abbrev Heights := Nat → Nat

/-- A skip list: the links of its head, one for each level, and the number of levels in use. -/
structure SkipList where
  head : List (Option NodeId)
  height : Nat := 1
deriving DecidableEq, Repr

/-- The nodes after which an entry belongs, level 0 first; the head is `none`, and so are the
levels that are not listed. -/
abbrev Splice := List (Option NodeId)

namespace SkipList

/-- The height that no tower of the list exceeds. -/
def maxHeight (list : SkipList) : Nat := list.head.length

/-- An empty list with towers of at most `maxHeight` levels, each level `branching` times as rare as
the one below. -/
def create (maxHeight branching : Nat) : Except Failure SkipList :=
  if maxHeight < 1 ∨ heightLimit < maxHeight then .error .towerHeight
  else if branching < 2 then .error .towerBranching
  else .ok { head := List.replicate maxHeight none }

def node (nodes : NodeStore) (id : NodeId) : Except Failure TowerNode :=
  match nodes.get? id with
  | some node => .ok node
  | none => .error (.brokenTower id)

/-- The links of the head, or of a node. -/
def links (list : SkipList) (nodes : NodeStore) :
    Option NodeId → Except Failure (List (Option NodeId))
  | none => .ok list.head
  | some id => (node nodes id).map TowerNode.next

/-- What follows the head, or a node, on a level. -/
def link (list : SkipList) (nodes : NodeStore) (place : Option NodeId) (level : Nat) :
    Except Failure (Option NodeId) := do
  match (← list.links nodes place)[level]? with
  | some target => .ok target
  | none => .error .outOfRange

/-- Goes along a level while the next node is below the target, for at most `fuel` steps. -/
def advance (list : SkipList) (nodes : NodeStore) (below : Handle → Except Failure Bool)
    (level : Nat) : (fuel : Nat) → Option NodeId → Except Failure (Option NodeId)
  | 0, _ => .error .endlessChain
  | fuel + 1, place => do
    match ← list.link nodes place level with
    | none => return place
    | some id =>
      if ← below (← node nodes id).handle then advance list nodes below level fuel (some id)
      else return place

/-- The last places below the target on the lowest `levels` levels, level 0 first, searched from the
highest of them down. -/
def descend (list : SkipList) (nodes : NodeStore) (below : Handle → Except Failure Bool) :
    (levels : Nat) → Option NodeId → Except Failure Splice
  | 0, _ => .ok []
  | level + 1, place => do
    let place ← list.advance nodes below level (nodes.size + 1) place
    return (← descend list nodes below level place) ++ [place]

/-- The last places below the target on all levels in use. -/
def splice (list : SkipList) (nodes : NodeStore) (below : Handle → Except Failure Bool) :
    Except Failure Splice :=
  list.descend nodes below list.height none

/-- The last node below the target. -/
def seekBefore (list : SkipList) (nodes : NodeStore) (below : Handle → Except Failure Bool) :
    Except Failure (Option NodeId) := do
  return (← list.splice nodes below).headD none

/-- The first node that is not below the target. -/
def seek (list : SkipList) (nodes : NodeStore) (below : Handle → Except Failure Bool) :
    Except Failure (Option NodeId) := do
  list.link nodes (← list.seekBefore nodes below) 0

def last (list : SkipList) (nodes : NodeStore) : Except Failure (Option NodeId) :=
  list.seekBefore nodes fun _ => .ok true

def first (list : SkipList) (nodes : NodeStore) : Except Failure (Option NodeId) :=
  list.link nodes none 0

def isEmpty (list : SkipList) : Bool := (list.head.headD none).isNone

/-- The handles from a place on, along level 0. -/
def handlesFrom (nodes : NodeStore) : (fuel : Nat) → Option NodeId → Except Failure (List Handle)
  | _, none => .ok []
  | 0, some _ => .error .endlessChain
  | fuel + 1, some id => do
    let node ← node nodes id
    return node.handle :: (← handlesFrom nodes fuel (node.next.headD none))

def handles (list : SkipList) (nodes : NodeStore) : Except Failure (List Handle) := do
  handlesFrom nodes nodes.size (← list.first nodes)

/-- The places after which an entry belongs, unless the list has an entry equal to it. -/
def spliceFor (list : SkipList) (nodes : NodeStore) (shelf : Shelf) (entry : Bytes) :
    Except Failure Splice := do
  let splice ← list.splice nodes (shelf.isBelowEntry entry)
  match ← list.link nodes (splice.headD none) 0 with
  | none => return splice
  | some id =>
    match ← shelf.compareEntry (← node nodes id).handle entry with
    | .eq => throw (.duplicateKey .skipList)
    | _ => return splice

/-- Makes what follows a place on a level a given node. -/
def relink (target : NodeId) (state : NodeStore × SkipList) (level : Nat) (place : Option NodeId) :
    NodeStore × SkipList :=
  let (nodes, list) := state
  match place with
  | none => (nodes, { list with head := list.head.set level (some target) })
  | some id =>
    (nodes.update id fun node => { node with next := node.next.set level (some target) }, list)

/-- Links a handle in behind a splice, with a tower of the drawn height; also tells that height. -/
def insertAt (list : SkipList) (nodes : NodeStore) (heights : Heights) (splice : Splice)
    (handle : Handle) : Except Failure (NodeStore × SkipList × Nat) := do
  let height := min list.maxHeight (max 1 (heights nodes.size))
  let levels := List.range height
  let next ← levels.mapM fun level => list.link nodes (splice.getD level none) level
  match nodes.push ⟨handle, next⟩ with
  | (_, .error failure) => throw failure
  | (nodes, .ok id) =>
    let grown := { list with height := max list.height height }
    let (nodes, list) := levels.foldl
      (fun state level => relink id state level (splice.getD level none)) (nodes, grown)
    return (nodes, list, height)

/-- Links in the handle of a published entry, unless the list has an entry equal to it. -/
def insert (list : SkipList) (nodes : NodeStore) (heights : Heights) (shelf : Shelf)
    (handle : Handle) : Except Failure (NodeStore × SkipList × Nat) := do
  let splice ← list.spliceFor nodes shelf (← shelf.arena.get handle)
  list.insertAt nodes heights splice handle

/-- Whether the list has an entry with an internal key equal to the given one. -/
def contains (list : SkipList) (nodes : NodeStore) (shelf : Shelf) (internalKey : Bytes) :
    Except Failure Bool := do
  match ← list.seek nodes (shelf.isBelowKey internalKey) with
  | none => return false
  | some id => return (← shelf.compareKey (← node nodes id).handle internalKey) == .eq

end SkipList

end WriteBuffer
