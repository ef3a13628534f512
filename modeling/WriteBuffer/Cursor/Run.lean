import WriteBuffer.Cursor.Moves
import WriteBuffer.Store.Shelf

/-!
Cursors over a fixed list of handles. Seeking halves the list, so on a sorted list it lands on the
first entry that is not below the target.
-/
namespace WriteBuffer

/-- Halves a window of `size` elements from `base` on, keeping the half that a probe points to: the
upper one unless the probed element is greater. Yields the last element left. -/
def halve {α : Type} (probe : α → Except Failure Ordering) (xs : List α) :
    (fuel base size : Nat) → Except Failure Nat
  | 0, base, _ => .ok base
  | fuel + 1, base, size =>
    if size ≤ 1 then .ok base
    else
      let middle := base + size / 2
      match xs[middle]? with
      | none => .error .outOfRange
      | some x => do
        match ← probe x with
        | .gt => halve probe xs fuel base (size - size / 2)
        | _ => halve probe xs fuel middle (size - size / 2)

/-- Searches a list sorted with respect to the probe: whether an element is equal, and where, or
before which element one would stand. -/
def binarySearch {α : Type} (probe : α → Except Failure Ordering) (xs : List α) :
    Except Failure (Bool × Nat) :=
  match xs with
  | [] => .ok (false, 0)
  | _ :: _ => do
    let place ← halve probe xs xs.length 0 xs.length
    match xs[place]? with
    | none => .error .outOfRange
    | some x =>
      match ← probe x with
      | .eq => return (true, place)
      | .lt => return (false, place + 1)
      | .gt => return (false, place)

/-- The number of leading elements that are below the target. -/
def partitionPoint {α : Type} (below : α → Except Failure Bool) (xs : List α) :
    Except Failure Nat := do
  let (_, point) ← binarySearch (fun x => do return if ← below x then .lt else .gt) xs
  return point

/-- A place in a fixed list of handles. -/
structure RunCursor where
  handles : List Handle
  position : Option Nat := none
deriving DecidableEq, Repr

namespace RunCursor

/-- The cursor at an index, or at none when the list is not as long. -/
def goTo (cursor : RunCursor) (index : Nat) : RunCursor :=
  { cursor with position := if index < cursor.handles.length then some index else none }

/-- Moves along the handles, seeking by the order of the shelf. -/
def moves (shelf : Shelf) : Moves RunCursor where
  valid cursor := cursor.position.isSome
  entry cursor := atPlace cursor.position fun index =>
    match cursor.handles[index]? with
    | none => .error .outOfRange
    | some handle => shelf.arena.get handle
  next cursor := atPlace cursor.position fun index => .ok (cursor.goTo (index + 1))
  prev cursor := atPlace cursor.position fun index =>
    .ok { cursor with position := if index = 0 then none else some (index - 1) }
  seek internalKey cursor := do
    return cursor.goTo (← partitionPoint (shelf.isBelowKey internalKey) cursor.handles)
  first cursor := .ok (cursor.goTo 0)
  last cursor := .ok (cursor.goTo (cursor.handles.length - 1))
  span cursor := cursor.handles.length

end RunCursor

end WriteBuffer
