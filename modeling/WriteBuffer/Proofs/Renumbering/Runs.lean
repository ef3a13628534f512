import Mathlib
import WriteBuffer.Cursor.Run
import WriteBuffer.Proofs.MergeImages
import WriteBuffer.Proofs.Renumbering.Stores

/-!
Runs of handles under other numbers. Runs are merged and searched by comparisons only, so they are
merged (`mergeRuns_both`) and searched (`partitionPoint_map`) alike where comparisons are answered the
same, and cursors over them cannot be told apart (`RunCursor.renumbered_bisimilar`).
-/
namespace WriteBuffer

variable {α β : Type} {f : α → β}

/-- A list is the image of another one, of which all elements have a property. -/
def ImageOf (f : α → β) (P : α → Prop) (xs : List α) (ys : List β) : Prop :=
  ys = xs.map f ∧ ∀ x ∈ xs, P x

section Merging

variable {P : α → Prop} {compare : α → α → Except Failure Ordering}
  {other : β → β → Except Failure Ordering}
  (same : ∀ x y, P x → P y → other (f x) (f y) = compare x y)

include same in
/-- Images of runs are merged to the image of what the runs are merged to. -/
theorem mergeRuns_both {runs : List (List α)} {images : List (List β)}
    (each : List.Forall₂ (ImageOf f P) runs images) :
    Both (ImageOf f P) (mergeRuns compare runs) (mergeRuns other images) := by
  obtain ⟨rfl, all⟩ : images = runs.map (·.map f) ∧ ∀ run ∈ runs, ∀ x ∈ run, P x := by
    induction each with
    | nil => simp
    | cons first _ ih =>
      exact ⟨by rw [first.1, ih.1, List.map_cons], List.forall_mem_cons.mpr ⟨first.2, ih.2⟩⟩
  lift runs to List (List { x // P x }) using all
  let held (x y : { x // P x }) := compare x.1 y.1
  have plain : mergeRuns compare (runs.map (·.map Subtype.val))
      = (mergeRuns held runs).map (List.map Subtype.val) := mergeRuns_map (fun _ _ => rfl) runs
  have imaged : mergeRuns other (runs.map (·.map fun x => f x.1))
      = (mergeRuns held runs).map (List.map fun x => f x.1) :=
    mergeRuns_map (fun x y => same x.1 y.1 x.2 y.2) runs
  rw [plain, List.map_map, show runs.map (List.map f ∘ List.map Subtype.val)
    = runs.map (·.map fun x => f x.1) by simp [Function.comp_def], imaged]
  cases mergeRuns held runs with
  | error _ => rfl
  | ok merged =>
    refine ⟨by simp, ?_⟩
    intro x member
    obtain ⟨lifted, _, rfl⟩ := List.mem_map.mp member
    exact lifted.2

end Merging

section Searching

variable {xs : List α}

theorem halve_map {probe : α → Except Failure Ordering} {other : β → Except Failure Ordering}
    (same : ∀ x ∈ xs, other (f x) = probe x) (fuel base size : Nat) :
    halve other (xs.map f) fuel base size = halve probe xs fuel base size := by
  induction fuel generalizing base size with
  | zero => rfl
  | succ fuel ih =>
    simp only [halve, List.getElem?_map, ih]
    cases found : xs[base + size / 2]? with
    | none => rfl
    | some x => simp only [Option.map_some, same x (List.mem_of_getElem? found)]

theorem binarySearch_map {probe : α → Except Failure Ordering} {other : β → Except Failure Ordering}
    (same : ∀ x ∈ xs, other (f x) = probe x) :
    binarySearch other (xs.map f) = binarySearch probe xs := by
  cases xs with
  | nil => rfl
  | cons x rest =>
    have halved := halve_map same
    simp only [List.map_cons] at halved
    simp only [binarySearch, List.map_cons, List.length_cons, List.length_map, halved]
    refine bind_congr fun place => ?_
    rw [← List.map_cons, List.getElem?_map]
    cases found : (x :: rest)[place]? with
    | none => rfl
    | some y => simp only [Option.map_some, same y (List.mem_of_getElem? found)]

/-- As many leading elements are below the target in the image of a list as in the list. -/
theorem partitionPoint_map {below : α → Except Failure Bool} {other : β → Except Failure Bool}
    (same : ∀ x ∈ xs, other (f x) = below x) :
    partitionPoint other (xs.map f) = partitionPoint below xs := by
  have searched := @binarySearch_map _ _ f xs (fun x => do return if ← below x then .lt else .gt)
    (fun x => do return if ← other x then .lt else .gt) fun x member => by rw [same x member]
  simp only [partitionPoint, searched]

end Searching

namespace RunCursor

variable {renumbering : Renumbering} {s t : Shelf}

/-- A cursor over the same handles under other numbers, if they are handles of published entries. -/
def Renumbered (renumbering : Renumbering) (s : Shelf) (a b : RunCursor) : Prop :=
  b = { a with handles := a.handles.map renumbering.number } ∧ ∀ handle ∈ a.handles, s.arena.Has handle

/-- Cursors over the same handles under other numbers cannot be told apart. -/
theorem renumbered_bisimilar (shelf : s.Renumbered renumbering t) :
    (moves s).Bisimilar (moves t) (Renumbered renumbering s) where
  valid := by
    rintro a _ ⟨rfl, _⟩
    rfl
  entry := by
    rintro a _ ⟨rfl, all⟩
    simp only [moves]
    refine congrArg (atPlace a.position) (funext fun index => ?_)
    simp only [List.getElem?_map]
    cases found : a.handles[index]? with
    | none => rfl
    | some handle => exact (shelf.arena.get (all _ (List.mem_of_getElem? found))).symm
  move := by
    rintro a _ ⟨rfl, all⟩ motion
    have goes : ∀ index, Renumbered renumbering s (a.goTo index)
        (RunCursor.goTo { a with handles := a.handles.map renumbering.number } index) := by
      intro index
      refine ⟨?_, all⟩
      simp only [goTo, List.length_map]
    cases motion with
    | next =>
      simp only [Moves.move, moves]
      cases a.position with
      | none => exact rfl
      | some index => exact goes (index + 1)
    | prev =>
      simp only [Moves.move, moves]
      cases a.position with
      | none => exact rfl
      | some index => exact ⟨rfl, all⟩
    | seek internalKey =>
      simp only [Moves.move, moves, partitionPoint_map fun handle member =>
        shelf.isBelowKey (all handle member) internalKey]
      refine (Both.of_eq (R := Eq) fun _ _ => rfl).bind ?_
      rintro point _ _ _ rfl
      exact goes point
    | first => exact goes 0
    | last =>
      simp only [Moves.move, moves, List.length_map]
      exact goes _

end RunCursor

end WriteBuffer
