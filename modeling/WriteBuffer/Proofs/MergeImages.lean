import Mathlib
import WriteBuffer.Merge

/-!
What merging depends on. The loop asks how elements compare and from which runs they are, so runs of
elements that stand for others are merged alike (`mergeRuns_map`), and runs without elements do not
count (`mergeRuns_nonempty`).
-/
namespace WriteBuffer

variable {α β : Type}

section Images

variable {compare : α → α → Except Failure Ordering} {other : β → β → Except Failure Ordering}

theorem popGreatest_map {f : α → β} (same : ∀ x y, other (f x) (f y) = compare x y) (heap : List α) :
    popGreatest other (heap.map f)
      = (popGreatest compare heap).map (Option.map fun popped => (f popped.1, popped.2.map f)) := by
  induction heap with
  | nil => rfl
  | cons item heap ih =>
    rw [List.map_cons, popGreatest, popGreatest, ih]
    match popGreatest compare heap with
    | .error _ | .ok none => rfl
    | .ok (some (top, rest)) =>
      simp only [Except.map, Option.map_some, bind, Except.bind, same]
      cases compare item top with
      | error _ => rfl
      | ok ordering => cases ordering <;> rfl

theorem drain_map {f : α → β} {image : Occurrence α → Occurrence β} {runs : List (List α)}
    {images : List (List β)}
    (same : ∀ a b, (image a).heapCompare other (image b) = a.heapCompare compare b)
    (element : ∀ a, (image a).element = f a.element)
    (next : ∀ a, occurrence? images (image a).run ((image a).position + 1)
      = (occurrence? runs a.run (a.position + 1)).map image)
    (rounds : Nat) (heap : List (Occurrence α)) :
    drain other images rounds (heap.map image)
      = (drain compare runs rounds heap).map (List.map f) := by
  induction rounds generalizing heap with
  | zero => rfl
  | succ rounds ih =>
    rw [drain, drain, popGreatest_map same]
    match popGreatest (Occurrence.heapCompare compare) heap with
    | .error _ | .ok none => rfl
    | .ok (some (item, rest)) =>
      have pending : ((occurrence? runs item.run (item.position + 1)).map image).toList
          ++ rest.map image
            = ((occurrence? runs item.run (item.position + 1)).toList ++ rest).map image := by
        rw [List.map_append, Option.toList_map]
      simp only [Except.map, Option.map_some, bind, Except.bind, next, pending, ih, element]
      cases drain compare runs rounds _ <;> rfl

/-- An element of a run, replaced. -/
def Occurrence.map (f : α → β) (a : Occurrence α) : Occurrence β :=
  { run := a.run, position := a.position, element := f a.element }

@[simp] theorem occurrence?_map (f : α → β) (runs : List (List α)) (run position : Nat) :
    occurrence? (runs.map (·.map f)) run position
      = (occurrence? runs run position).map (Occurrence.map f) := by
  rw [occurrence?, occurrence?, List.getElem?_map, Option.map_map]
  cases runs[run]? with
  | none => rfl
  | some handles =>
    rw [Option.map_some, Option.bind_some, Option.bind_some, List.getElem?_map, Option.map_map]
    rfl

@[simp] theorem heads_map (f : α → β) (runs : List (List α)) :
    heads (runs.map (·.map f)) = (heads runs).map (Occurrence.map f) := by
  rw [heads, heads, List.zipIdx_map, List.filterMap_map, List.map_filterMap]
  refine List.filterMap_congr ?_
  rintro ⟨handles, run⟩ _
  cases handles <;> rfl

/-- Runs are merged alike where comparisons have the same answers. -/
theorem mergeRuns_map {f : α → β} (same : ∀ x y, other (f x) (f y) = compare x y)
    (runs : List (List α)) :
    mergeRuns other (runs.map (·.map f)) = (mergeRuns compare runs).map (List.map f) := by
  have rounds : (runs.map (·.map f)).flatten.length = runs.flatten.length := by
    rw [← List.map_flatten, List.length_map]
  rw [mergeRuns, mergeRuns, rounds, heads_map]
  refine drain_map (f := f) ?_ (fun _ => rfl) (fun a => occurrence?_map f runs a.run _) _ _
  intro a b
  simp only [Occurrence.heapCompare, Occurrence.map, same]

end Images

section Skipping

variable {compare : α → α → Except Failure Ordering}

/-- An occurrence, where a run is put in between as number `number`. -/
def Occurrence.shift (number : Nat) (a : Occurrence α) : Occurrence α :=
  { a with run := if a.run < number then a.run else a.run + 1 }

theorem occurrence?_shift (front back : List (List α)) (a : Occurrence α) (position : Nat) :
    occurrence? (front ++ [] :: back) (a.shift front.length).run position
      = (occurrence? (front ++ back) a.run position).map (Occurrence.shift front.length) := by
  have found : (front ++ [] :: back)[(a.shift front.length).run]? = (front ++ back)[a.run]? := by
    simp only [Occurrence.shift]
    split
    · next inFront => rw [List.getElem?_append_left inFront, List.getElem?_append_left inFront]
    · next behind =>
      rw [List.getElem?_append_right (by omega), List.getElem?_append_right (by omega),
        show a.run + 1 - front.length = a.run - front.length + 1 by omega, List.getElem?_cons_succ]
  rw [occurrence?, occurrence?, found, Option.map_map]
  rfl

theorem heads_shift (front back : List (List α)) :
    heads (front ++ [] :: back) = (heads (front ++ back)).map (Occurrence.shift front.length) := by
  rw [heads, heads, List.map_filterMap, List.zipIdx_append, List.zipIdx_append, List.zipIdx_cons,
    List.zipIdx_succ, List.filterMap_append, List.filterMap_append, List.filterMap_cons_none rfl,
    List.filterMap_map]
  congr 1
  · refine List.filterMap_congr ?_
    rintro ⟨handles, run⟩ member
    have inFront := (List.mem_zipIdx' member).1
    cases handles <;> simp [Occurrence.shift, inFront]
  · refine List.filterMap_congr ?_
    rintro ⟨handles, run⟩ member
    have behind := (List.mem_zipIdx member).1
    cases handles <;> simp [Occurrence.shift, show ¬ run < front.length by omega]

theorem mergeRuns_skip (front back : List (List α)) :
    mergeRuns compare (front ++ [] :: back) = mergeRuns compare (front ++ back) := by
  have rounds : (front ++ [] :: back).flatten = (front ++ back).flatten := by simp
  have same (a b : Occurrence α) :
      (a.shift front.length).heapCompare compare (b.shift front.length) = a.heapCompare compare b := by
    have kept : Ord.compare (b.shift front.length).run (a.shift front.length).run
        = Ord.compare b.run a.run := by
      simp only [Occurrence.shift, Nat.compare_eq_ite_lt]
      split_ifs <;> first | rfl | omega
    rw [Occurrence.heapCompare, kept]
    rfl
  have merged := drain_map (f := id) same (fun _ => rfl)
    (fun a => occurrence?_shift front back a _) (front ++ back).flatten.length
    (heads (front ++ back))
  rw [mergeRuns, mergeRuns, rounds, heads_shift, merged]
  cases drain compare (front ++ back) _ _ <;> simp [Except.map]

/-- Runs without elements do not count. -/
theorem mergeRuns_nonempty (runs : List (List α)) :
    mergeRuns compare (runs.filter fun run => !run.isEmpty) = mergeRuns compare runs := by
  have behind : ∀ front : List (List α), mergeRuns compare (front ++ runs.filter fun run => !run.isEmpty)
      = mergeRuns compare (front ++ runs) := by
    induction runs with
    | nil => simp
    | cons run runs ih =>
      intro front
      cases run with
      | nil => rw [mergeRuns_skip, List.filter_cons_of_neg (by simp), ih]
      | cons x run =>
        rw [List.filter_cons_of_pos (by simp), List.append_cons, ih, ← List.append_cons]
  exact behind []

end Skipping

end WriteBuffer
