import Mathlib
import WriteBuffer.Proofs.Arranging
import WriteBuffer.Proofs.VersionedOrder

/-!
Merging runs is a stable merge. What is popped is told apart by where it stands (`Occurrence`): nothing
is lost or invented, each run keeps its order, and sorted runs become their concatenation as a stable
sort arranges it, whichever greatest items the heap pops (`Shelf.mergeRuns_stable`).
-/
namespace WriteBuffer

variable {α β : Type} {le : α → α → Bool} {run : List α} {runs : List (List α)}

theorem merge_sublists (le : α → α → Bool) (xs ys : List α) :
    xs.Sublist (xs.merge ys le) ∧ ys.Sublist (xs.merge ys le) := by
  induction xs generalizing ys with
  | nil => simp
  | cons x xs ihX =>
    induction ys with
    | nil => simp
    | cons y ys ihY =>
      rw [List.cons_merge_cons]
      split
      · exact ⟨(ihX (y :: ys)).1.cons_cons x, (ihX (y :: ys)).2.cons x⟩
      · exact ⟨ihY.1.cons y, ihY.2.cons_cons y⟩

/-- Each run is found in the merged runs, in its own order. -/
theorem sublist_mergeAll (member : run ∈ runs) : run.Sublist (mergeAll le runs) := by
  induction runs with
  | nil => cases member
  | cons first rest ih =>
    rcases List.mem_cons.mp member with rfl | later
    · exact (merge_sublists le run _).1
    · exact (ih later).trans (merge_sublists le first _).2

namespace Occurrence

/-- An occurrence is in an earlier run, or further ahead in the same one. -/
def Before (a b : Occurrence α) : Prop := a.run < b.run ∨ a.run = b.run ∧ a.position < b.position

instance (a b : Occurrence α) : Decidable (a.Before b) := inferInstanceAs (Decidable (_ ∨ _))

/-- One element is less than another one, or equal to it and not behind it. -/
def stableLE (le : α → α → Bool) (a b : Occurrence α) : Bool :=
  le a.element b.element && (!le b.element a.element || decide (¬ b.Before a))

theorem map_inRun_map (f : α → β) (number : Nat) (run : List α) :
    (inRun number run).map (map f) = inRun number (run.map f) := by
  refine List.ext_getElem (by simp [inRun]) ?_
  intro index _ _
  simp [inRun, map]

theorem map_inRuns_map (f : α → β) (number : Nat) (runs : List (List α)) :
    (inRuns number runs).map (·.map (map f)) = inRuns number (runs.map (·.map f)) := by
  induction runs generalizing number with
  | nil => rfl
  | cons run runs ih => rw [inRuns, List.map_cons, map_inRun_map, ih, List.map_cons, inRuns]

theorem le_run_of_mem {number : Nat} {runs : List (List α)} {a : Occurrence α}
    (member : a ∈ (inRuns number runs).flatten) : number ≤ a.run := by
  induction runs generalizing number with
  | nil => simp [inRuns] at member
  | cons run runs ih =>
    rw [inRuns, List.flatten_cons, List.mem_append] at member
    rcases member with first | later
    · exact (run_eq_of_mem first).ge
    · exact Nat.le_of_succ_le (ih later)

/-- The occurrences of a run are found by its number. -/
theorem filter_inRuns (number index : Nat) {runs : List (List α)} {run : List α}
    (found : runs[index]? = some run) :
    (inRuns number runs).flatten.filter (·.run == number + index) = inRun (number + index) run := by
  induction runs generalizing number index with
  | nil => simp at found
  | cons first rest ih =>
    rw [inRuns, List.flatten_cons, List.filter_append]
    cases index with
    | zero =>
      obtain rfl := Option.some.inj found
      rw [List.filter_eq_self.mpr, List.filter_eq_nil_iff.mpr, List.append_nil]
      · rfl
      · intro a member
        have := le_run_of_mem member
        simp only [beq_iff_eq]
        omega
      · intro a member
        simp [run_eq_of_mem member]
    | succ index =>
      have later := ih (number + 1) index (by simpa using found)
      rw [show number + (index + 1) = number + 1 + index by omega, later,
        List.filter_eq_nil_iff.mpr, List.nil_append]
      intro a member
      have := run_eq_of_mem member
      simp only [beq_iff_eq]
      omega

theorem inRun_before (number : Nat) (run : List α) : (inRun number run).Pairwise Before := by
  rw [List.pairwise_iff_getElem]
  intro i j _ _ less
  simp [inRun, Before, less]

theorem inRuns_before (number : Nat) (runs : List (List α)) :
    (inRuns number runs).flatten.Pairwise Before := by
  induction runs generalizing number with
  | nil => simp [inRuns]
  | cons run runs ih =>
    rw [inRuns, List.flatten_cons, List.pairwise_append]
    refine ⟨inRun_before number run, ih (number + 1), ?_⟩
    intro a inFirst b inRest
    have first := run_eq_of_mem inFirst
    have rest := le_run_of_mem inRest
    exact .inl (by omega)

section StableOrder

variable {le : α → α → Bool} (trans : ∀ x y z, le x y = true → le y z = true → le x z = true)

include trans in
theorem stableLE_trans (a b c : Occurrence α) (ab : stableLE le a b = true)
    (bc : stableLE le b c = true) : stableLE le a c = true := by
  refine tieBreak_trans trans (fun a b => ¬ b.Before a) ?_ a b c ab bc
  intro a b c notBehindA notBehindB
  simp only [Before] at notBehindA notBehindB ⊢
  omega

theorem stableLE_total (total : ∀ x y, (le x y || le y x) = true) (a b : Occurrence α) :
    (stableLE le a b || stableLE le b a) = true := by
  have either := total a.element b.element
  have notBoth : ¬ (a.Before b ∧ b.Before a) := by
    simp only [Before]
    omega
  simp only [stableLE]
  cases ab : le a.element b.element <;> cases ba : le b.element a.element
  · simp [ab, ba] at either
  · rfl
  · rfl
  · simpa [imp_not_comm, ← imp_iff_not_or] using notBoth

end StableOrder

/-- Where one occurrence is before another, the stable order asks about the elements only. -/
theorem stableLE_of_before (le : α → α → Bool) {a b : Occurrence α} (before : a.Before b) :
    stableLE le a b = le a.element b.element := by
  have notBehind : ¬ b.Before a := by
    simp only [Before] at before ⊢
    omega
  simp [stableLE, notBehind]

/-- Two lists of occurrences that the stable order sorts are the same if they have the same
members. -/
theorem eq_of_stable {le : α → α → Bool} {number : Nat} {runs : List (List α)}
    {xs ys : List (Occurrence α)} (permX : xs.Perm (inRuns number runs).flatten)
    (permY : ys.Perm (inRuns number runs).flatten)
    (sortedX : xs.Pairwise fun a b => stableLE le a b = true)
    (sortedY : ys.Pairwise fun a b => stableLE le a b = true) : xs = ys := by
  refine (permX.trans permY.symm).eq_of_pairwise ?_ sortedX sortedY
  intro a b inX inY ab ba
  simp only [stableLE, Bool.and_eq_true, Bool.or_eq_true, Bool.not_eq_true', decide_eq_true_eq]
    at ab ba
  simp only [ab.1, ba.1, Bool.true_eq_false, false_or, true_and] at ab ba
  -- Of two occurrences at different places one is before the other one.
  obtain ⟨i, boundI, rfl⟩ := List.mem_iff_getElem.mp (permX.mem_iff.mp inX)
  obtain ⟨j, boundJ, rfl⟩ := List.mem_iff_getElem.mp (permY.mem_iff.mp inY)
  have before := List.pairwise_iff_getElem.mp (inRuns_before number runs)
  rcases lt_trichotomy i j with less | rfl | greater
  · exact absurd (before i j boundI boundJ less) ba
  · rfl
  · exact absurd (before j i boundJ boundI greater) ab

/-- Merging sorted runs puts their occurrences into the stable order. -/
theorem mergeAll_stable {le : α → α → Bool}
    (trans : ∀ x y z, le x y = true → le y z = true → le x z = true)
    (total : ∀ x y, (le x y || le y x) = true) (number : Nat) {runs : List (List α)}
    (sorted : ∀ run ∈ runs, run.Pairwise fun x y => le x y = true) :
    (mergeAll (fun a b => le a.element b.element) (inRuns number runs)).Pairwise
      fun a b => stableLE le a b = true := by
  induction runs generalizing number with
  | nil => simp [inRuns]
  | cons run runs ih =>
    rw [inRuns, mergeAll_cons]
    have sortedRest := ih (number + 1) fun other member =>
      sorted other (List.mem_cons_of_mem _ member)
    have sortedRun : (inRun number run).Pairwise fun a b => stableLE le a b = true := by
      have elements : ((inRun number run).map element).Pairwise fun x y => le x y = true := by
        rw [map_inRun]
        exact sorted run List.mem_cons_self
      refine ((inRun_before number run).and (List.pairwise_map.mp elements)).imp ?_
      intro a b both
      rw [stableLE_of_before le both.1]
      exact both.2
    -- All occurrences of the first run are before those of the others.
    have same : ∀ a ∈ inRun number run,
        ∀ b ∈ mergeAll (fun a b => le a.element b.element) (inRuns (number + 1) runs),
        le a.element b.element = stableLE le (id a) (id b) := by
      intro a inFirst b inRest
      have first := run_eq_of_mem inFirst
      have rest := le_run_of_mem ((mergeAll_perm _ _).mem_iff.mp inRest)
      exact (stableLE_of_before le (.inl (by omega))).symm
    have merged := List.map_merge (f := id) (s := stableLE le)
      (r := fun a b : Occurrence α => le a.element b.element) same
    rw [List.map_id, List.map_id, List.map_id] at merged
    rw [merged]
    exact List.pairwise_merge (stableLE_trans trans) (stableLE_total total) _ _ sortedRun sortedRest

/-- Sorting puts the occurrences of a concatenation into the stable order. -/
theorem mergeSort_stable {le : α → α → Bool}
    (trans : ∀ x y z, le x y = true → le y z = true → le x z = true)
    (total : ∀ x y, (le x y || le y x) = true) {occurrences : List (Occurrence α)}
    (inOrder : occurrences.Pairwise Before) :
    (occurrences.mergeSort fun a b => le a.element b.element).Pairwise
      fun a b => stableLE le a b = true := by
  rw [← List.mergeSort_zipIdx, List.pairwise_map]
  refine (List.pairwise_mergeSort
    (List.zipIdxLE_trans fun a b c => trans a.element b.element c.element)
    (List.zipIdxLE_total fun a b => total a.element b.element) occurrences.zipIdx).imp_of_mem ?_
  intro a b inA inB less
  have atA := List.mem_zipIdx_iff_getElem?.mp (List.mem_mergeSort.mp inA)
  have atB := List.mem_zipIdx_iff_getElem?.mp (List.mem_mergeSort.mp inB)
  obtain ⟨boundA, elementA⟩ := List.getElem?_eq_some_iff.mp atA
  obtain ⟨boundB, elementB⟩ := List.getElem?_eq_some_iff.mp atB
  simp only [List.zipIdxLE] at less
  split at less
  · next ab =>
    rw [stableLE, ab, Bool.true_and]
    split at less
    · next ba =>
      -- Equal elements stand as in the list that is sorted.
      rw [decide_eq_true_iff] at less
      have notBehind : ¬ b.1.Before a.1 := by
        intro behind
        rcases less.lt_or_eq with later | same
        · have ahead := List.pairwise_iff_getElem.mp inOrder a.2 b.2 boundA boundB later
          rw [elementA, elementB] at ahead
          simp only [Before] at ahead behind
          omega
        · have equal : a.1 = b.1 := Option.some.inj (atA.symm.trans (same ▸ atB))
          rw [equal] at behind
          simp only [Before] at behind
          omega
      simp [notBehind]
    · next notBa => simp [notBa]
  · cases less

section Merging

variable {compare : β → β → Except Failure Ordering} {f : α → β} {le : α → α → Bool}

/-- Of the merged occurrences those in one run are the run. -/
theorem filter_mergeAll (le : Occurrence α → Occurrence α → Bool) {runs : List (List α)}
    {number : Nat} {run : List α} (found : runs[number]? = some run) :
    (mergeAll le (inRuns 0 runs)).filter (·.run == number) = inRun number run := by
  have inFlatten := filter_inRuns 0 number found
  rw [Nat.zero_add] at inFlatten
  have perm : ((mergeAll le (inRuns 0 runs)).filter (·.run == number)).Perm (inRun number run) :=
    inFlatten ▸ (mergeAll_perm le (inRuns 0 runs)).filter _
  have member : inRun number run ∈ inRuns 0 runs := by
    refine List.mem_of_getElem? (i := number) ?_
    rw [getElem?_inRuns, found, Nat.zero_add, Option.map_some]
  have kept : (inRun number run).filter (·.run == number) = inRun number run := by
    refine List.filter_eq_self.mpr ?_
    intro a inside
    simp [run_eq_of_mem inside]
  have sub : ((inRun number run).filter (·.run == number)).Sublist
      ((mergeAll le (inRuns 0 runs)).filter (·.run == number)) := (sublist_mergeAll member).filter _
  rw [kept] at sub
  exact (sub.eq_of_length perm.length_eq.symm).symm

/-- Merging sorted runs is sorting their concatenation. -/
theorem mergeAll_eq_mergeSort (weighs : Weighs compare f le) {runs : List (List α)}
    (sorted : ∀ run ∈ runs, run.Pairwise fun x y => le x y = true) :
    (mergeAll (fun a b => le a.element b.element) (inRuns 0 runs)).map element
      = runs.flatten.mergeSort le := by
  have same := eq_of_stable (mergeAll_perm _ _) (List.mergeSort_perm _ _)
    (mergeAll_stable weighs.trans weighs.total 0 sorted)
    (mergeSort_stable weighs.trans weighs.total (inRuns_before 0 runs))
  rw [same, List.map_mergeSort (s := le) (f := element) fun _ _ _ _ => rfl, List.map_flatten,
    map_inRuns]

end Merging

end Occurrence

namespace Shelf

variable {shelf : Shelf} {keys : Bytes → Prop} {runs : List (List Handle)}

/-- Merging runs of handles is a stable merge. Whichever greatest items a heap pops, these are the same
occurrences of handles, and the loop puts out their handles: every handle of the runs is met as often
as it occurs in them, those of one run in the order of the run, and if every run is in ascending order,
the handles come as a stable sort of the concatenation arranges them. -/
theorem mergeRuns_stable (total : shelf.order.TotalOn keys)
    (readable : ∀ run ∈ runs, ∀ handle ∈ run, shelf.Readable keys handle) :
    ∃ merged : List (Occurrence Handle),
      (∀ popped, Drains shelf.compareHandles runs (heads runs : List _) popped ↔ popped = merged)
      ∧ mergeRuns shelf.compareHandles runs = .ok (merged.map (·.element))
      ∧ merged.Perm (Occurrence.inRuns 0 runs).flatten
      ∧ (merged.map (·.element)).Perm runs.flatten
      ∧ (∀ number run, runs[number]? = some run →
          merged.filter (·.run == number) = Occurrence.inRun number run)
      ∧ ((∀ run ∈ runs, run.Pairwise fun a b => shelf.notAbove a b = true) →
          merged.Pairwise (fun a b => Occurrence.stableLE shelf.notAbove a b = true)
          ∧ merged.map (·.element) = runs.flatten.mergeSort shelf.notAbove) := by
  obtain ⟨lifted, rfl⟩ := exists_readable readable
  have weighs := weighs total
  let merged := mergeAll (fun a b => shelf.notAbove a.element.1 b.element.1)
    (Occurrence.inRuns 0 lifted)
  have elements : (merged.map (Occurrence.map Subtype.val)).map (·.element)
      = (merged.map (·.element)).map Subtype.val := by
    rw [List.map_map, List.map_map]
    rfl
  have perm : (merged.map (Occurrence.map Subtype.val)).Perm
      (Occurrence.inRuns 0 (lifted.map (·.map Subtype.val))).flatten := by
    rw [← Occurrence.map_inRuns_map, ← List.map_flatten]
    exact (mergeAll_perm _ _).map _
  refine ⟨merged.map (Occurrence.map Subtype.val), fun popped => drains_iff weighs lifted, ?_, perm,
    ?_, ?_, ?_⟩
  · have handles := map_mergeAll Occurrence.element (fun a b => shelf.notAbove a.1 b.1)
      (Occurrence.inRuns 0 lifted)
    rw [Occurrence.map_inRuns] at handles
    rw [mergeRuns_eq weighs lifted, elements, handles]
  · have handles := perm.map (·.element)
    rwa [List.map_flatten, Occurrence.map_inRuns] at handles
  · intro number run found
    rw [List.getElem?_map] at found
    obtain ⟨inLifted, foundLifted, rfl⟩ := Option.map_eq_some_iff.mp found
    rw [List.filter_map, ← Occurrence.map_inRun_map]
    exact congrArg (List.map (Occurrence.map Subtype.val))
      (Occurrence.filter_mergeAll _ foundLifted)
  · intro sorted
    have sortedLifted : ∀ run ∈ lifted, run.Pairwise fun a b => shelf.notAbove a.1 b.1 = true := by
      intro run member
      exact List.pairwise_map.mp (sorted _ (List.mem_map_of_mem member))
    refine ⟨?_, ?_⟩
    · rw [List.pairwise_map]
      exact Occurrence.mergeAll_stable weighs.trans weighs.total 0 sortedLifted
    · rw [elements, Occurrence.mergeAll_eq_mergeSort weighs sortedLifted,
        List.map_mergeSort (s := shelf.notAbove) (f := Subtype.val) fun _ _ _ _ => rfl,
        List.map_flatten]

/-- Two runs share a handle, and an entry of one has the key of an entry of the other: the equal
entries come in the order of their runs, whatever a heap pops. -/
theorem mergeRuns_equal_entries :
    let older : Bytes := [9, 0, 0, 0, 97, 1, 1, 0, 0, 0, 0, 0, 0, 0, 0, 0, 0]
    let again : Bytes := [9, 0, 0, 0, 97, 1, 1, 0, 0, 0, 0, 0, 0, 1, 0, 0, 0, 7]
    let other : Bytes := [9, 0, 0, 0, 98, 1, 1, 0, 0, 0, 0, 0, 0, 0, 0, 0, 0]
    let entries := (((ChunkStore.empty.publish 0 older).1.publish 1 again).1.publish 2 other).1
    let shelf : Shelf := { order := .versioned, arena := { id := 0, entries } }
    let runs : List (List Handle) := [[⟨0⟩, ⟨2⟩], [], [⟨1⟩, ⟨0⟩]]
    mergeRuns shelf.compareHandles runs = .ok (runs.flatten.mergeSort shelf.notAbove) ∧
      mergeRuns shelf.compareHandles runs = .ok [⟨0⟩, ⟨1⟩, ⟨0⟩, ⟨2⟩] ∧
      ∀ popped, Drains shelf.compareHandles runs (heads runs : List _) popped →
        popped.map (·.element) = [⟨0⟩, ⟨1⟩, ⟨0⟩, ⟨2⟩] := by
  intro older again other entries shelf runs
  have read : ∀ handle ∈ runs.flatten, ∃ entry ∈ [older, again, other],
      shelf.arena.get handle = .ok entry := by decide +kernel
  have keyed : ∀ entry ∈ [older, again, other], ∃ key ∈ [older, other].map (·.extract 4 13),
      entryKey entry = .ok key ∧ tagSize ≤ key.length := by decide +kernel
  have readable : ∀ run ∈ runs, ∀ handle ∈ run, shelf.Readable HasTag handle := by
    intro run member handle inside
    obtain ⟨entry, known, found⟩ := read handle (List.mem_flatten.mpr ⟨run, member, inside⟩)
    obtain ⟨key, _, cut, tagged⟩ := keyed entry known
    exact ⟨entry, found, key, cut, tagged⟩
  obtain ⟨merged, drains, done, _, _, _, stable⟩ :=
    @mergeRuns_stable shelf HasTag runs KeyOrder.versioned_totalOn readable
  obtain ⟨_, sorted⟩ := stable (by decide +kernel)
  have output : mergeRuns shelf.compareHandles runs = .ok [⟨0⟩, ⟨1⟩, ⟨0⟩, ⟨2⟩] := by decide +kernel
  refine ⟨sorted ▸ done, output, ?_⟩
  intro popped drained
  rw [(drains popped).mp drained]
  exact Except.ok.inj (done.symm.trans output)

end Shelf

end WriteBuffer
