import WriteBuffer.Store.Sparse
import WriteBuffer.Store.Arena

/-!
The search for room in a full neighbourhood of a cuckoo table, and the moves that make it. Every
occupant may move to the other slots of its own user key. The search goes level by level, so it
finds a shortest chain of occupants that can each move into the slot of the next, the last one into
an empty slot; then the moves are made from the empty slot backwards, so that no key is out of the
table at any time.
-/
namespace WriteBuffer

/-- Slots whose occupants move, each into the slot of the one after it: the last of them, and those
before it, the nearest first. -/
structure KickPath where
  slot : Nat
  earlier : List Nat := []
deriving DecidableEq, Repr

namespace KickPath

def length (path : KickPath) : Nat := path.earlier.length + 1

/-- The path with one more occupant to move. -/
def extend (path : KickPath) (slot : Nat) : KickPath := ⟨slot, path.slot :: path.earlier⟩

end KickPath

/-- The paths of the next level, in the order they were found, and all slots on some path. -/
structure Frontier where
  paths : List KickPath := []
  visited : List Nat
deriving DecidableEq, Repr

/-- What a part of the search comes to: a path and an empty slot for its last occupant, or more
paths to look at. -/
inductive Search
  | found (path : KickPath) (empty : Nat)
  | wider (frontier : Frontier)
deriving DecidableEq, Repr

/-- Looks at the slots to which the last occupant of a path may move. -/
def Search.around (isFull : Nat → Bool) (deeper : Bool) (path : KickPath) :
    List Nat → Frontier → Search
  | [], frontier => .wider frontier
  | slot :: rest, frontier =>
    if slot = path.slot then around isFull deeper path rest frontier
    else if isFull slot then
      if deeper ∧ slot ∉ frontier.visited then
        around isFull deeper path rest
          ⟨frontier.paths ++ [path.extend slot], slot :: frontier.visited⟩
      else around isFull deeper path rest frontier
    else .found path slot

/-- Looks around the ends of paths, one after the other, until room is found. -/
def Search.level (isFull : Nat → Bool) (choices : Nat → Except Failure (List Nat))
    (deeper : Bool) : List KickPath → Frontier → Except Failure Search
  | [], frontier => .ok (.wider frontier)
  | path :: rest, frontier => do
    match Search.around isFull deeper path (← choices path.slot) frontier with
    | .found path empty => return .found path empty
    | .wider frontier => level isFull choices deeper rest frontier

/-- Searches at most `levels` levels, the first of which ends at the given paths. -/
def Search.run (isFull : Nat → Bool) (choices : Nat → Except Failure (List Nat)) :
    (levels : Nat) → List KickPath → (visited : List Nat) →
      Except Failure (Option (KickPath × Nat))
  | 0, _, _ => .ok none
  | levels + 1, paths, visited => do
    match ← Search.level isFull choices (levels ≠ 0) paths { visited } with
    | .found path empty => return some (path, empty)
    | .wider frontier => run isFull choices levels frontier.paths frontier.visited

/-- The greatest number of occupants that are moved for one insert. -/
def maxDisplacements : Nat := 10

/-- A shortest chain of moves that makes room in one of the given slots, and the slot that its last
occupant moves to. -/
def findRoom (isFull : Nat → Bool) (choices : Nat → Except Failure (List Nat))
    (candidates : List Nat) : Except Failure (Option (KickPath × Nat)) :=
  let starts := candidates.eraseDups
  Search.run isFull choices maxDisplacements (starts.map fun slot => { slot }) starts

/-- The stores that move every occupant of a path on and put a new handle first, in the order in
which they are made. -/
def displacementStores (slots : Sparse Handle) (handle : Handle) :
    (path : List Nat) → (target : Nat) → List (Nat × Option Handle)
  | [], target => [(target, some handle)]
  | slot :: earlier, target =>
    (target, slots.get? slot) :: displacementStores slots handle earlier slot

def applyStores (slots : Sparse Handle) (stores : List (Nat × Option Handle)) : Sparse Handle :=
  stores.foldl (fun slots (target, content) => slots.store target content) slots

/-- The table after the moves along a path. -/
def displace (slots : Sparse Handle) (handle : Handle) (path : KickPath) (empty : Nat) :
    Sparse Handle :=
  applyStores slots (displacementStores slots handle (path.slot :: path.earlier) empty)

end WriteBuffer
