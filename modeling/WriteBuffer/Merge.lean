import WriteBuffer.Store.Shelf

/-!
Merging runs of handles. A heap holds the pending element of every run that is not used up. In every
round a greatest one is popped, which is a least element of an earliest run since the order of the
heap is reversed, and the next element of its run takes its place.
-/
namespace WriteBuffer

variable {α β : Type}

/-- An element of a run, with the number of the run and the position in it. -/
structure Occurrence (α : Type) where
  run : Nat
  position : Nat
  element : α
deriving DecidableEq, Repr

/-- The order of the heap. It is reversed: the least element is the greatest one of the heap, and of
equal elements the one of the earliest run. -/
def Occurrence.heapCompare (compare : α → α → Except Failure Ordering) (a b : Occurrence α) :
    Except Failure Ordering := do
  return (← compare b.element a.element).then (Ord.compare b.run a.run)

/-- The element of a run at a position. -/
def occurrence? (runs : List (List α)) (run position : Nat) : Option (Occurrence α) :=
  (runs[run]?.bind (·[position]?)).map fun element => { run, position, element }

/-- The first elements of the runs that are not empty. -/
def heads (runs : List (List α)) : List (Occurrence α) :=
  runs.zipIdx.filterMap fun (handles, run) =>
    handles.head?.map fun element => { run, position := 0, element }

/-- Takes a greatest item out of a heap. -/
def popGreatest (compare : β → β → Except Failure Ordering) :
    List β → Except Failure (Option (β × List β))
  | [] => .ok none
  | item :: heap => do
    match ← popGreatest compare heap with
    | none => return some (item, [])
    | some (top, rest) =>
      match ← compare item top with
      | .lt => return some (top, item :: rest)
      | _ => return some (item, top :: rest)

/-- Pops items for some rounds; the next element of the run an item is from takes its place. -/
def drain (compare : α → α → Except Failure Ordering) (runs : List (List α)) :
    (rounds : Nat) → (heap : List (Occurrence α)) → Except Failure (List α)
  | 0, _ => .ok []
  | rounds + 1, heap => do
    match ← popGreatest (Occurrence.heapCompare compare) heap with
    | none => return []
    | some (item, rest) =>
      let next := occurrence? runs item.run (item.position + 1)
      return item.element :: (← drain compare runs rounds (next.toList ++ rest))

/-- Merges runs. A round for each of their elements empties the heap. -/
def mergeRuns (compare : α → α → Except Failure Ordering) (runs : List (List α)) :
    Except Failure (List α) :=
  drain compare runs runs.flatten.length (heads runs)

end WriteBuffer
