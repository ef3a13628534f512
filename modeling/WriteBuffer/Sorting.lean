import WriteBuffer.Failure

/-!
Sorting by insertion. The elements are taken from the left and put into a list that is kept in
descending order, so what comes in ascending order costs one comparison an element. Equal elements
keep their order. The first comparison is of the first two elements, so a sort of two or more
elements either asks about these or fails at them.
-/
namespace WriteBuffer

variable {α : Type}

/-- Puts an element into a descending list, in front of those that it is not below. -/
def insertDescending (compare : α → α → Except Failure Ordering) (x : α) :
    List α → Except Failure (List α)
  | [] => .ok [x]
  | y :: ys => do
    match ← compare x y with
    | .lt => return y :: (← insertDescending compare x ys)
    | _ => return x :: y :: ys

/-- Puts the elements of a list into a descending one, each in front of those before it that it is
not below. -/
def sortDescending (compare : α → α → Except Failure Ordering) :
    (sorted xs : List α) → Except Failure (List α)
  | sorted, [] => .ok sorted
  | sorted, x :: xs => do sortDescending compare (← insertDescending compare x sorted) xs

/-- Sorts a list in ascending order; equal elements keep their order. -/
def sortStable (compare : α → α → Except Failure Ordering) (xs : List α) :
    Except Failure (List α) :=
  (sortDescending compare [] xs).map List.reverse

end WriteBuffer
