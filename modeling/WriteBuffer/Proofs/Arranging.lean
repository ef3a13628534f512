import Mathlib
import WriteBuffer.Proofs.MergeLoop
import WriteBuffer.Proofs.Storage
import WriteBuffer.Sorting

/-!
Sorting and merging of handles of entries that an order tells apart. Such entries are ranked by it
(`KeyOrder.TotalOn.ranked`), and so are their handles (`Shelf.Reads.ranked`); sorting what is ranked
strictly puts it in ascending order (`sortStable_ranked`), so it puts the entries in order
(`Shelf.Reads.sorts`). Handles of readable entries are weighed by the order (`Shelf.weighs`), so merging
runs of them puts the entries in order as well (`Shelf.Reads.merges`).
-/
namespace WriteBuffer

variable {α : Type} {compare : α → α → Except Failure Ordering} {x y : α} {xs ys : List α}

/-- One element is less than another one. -/
def Less (compare : α → α → Except Failure Ordering) (x y : α) : Prop := compare x y = .ok .lt

/-- One of two elements is less than the other, whichever is asked about first. -/
def Apart (compare : α → α → Except Failure Ordering) (x y : α) : Prop :=
  (compare x y = .ok .lt ∧ compare y x = .ok .gt) ∨ (compare x y = .ok .gt ∧ compare y x = .ok .lt)

/-- The elements of a list are ranked in a strict order. -/
structure Ranked (compare : α → α → Except Failure Ordering) (xs : List α) : Prop where
  apart : xs.Pairwise (Apart compare)
  trans : ∀ {x y z}, x ∈ xs → y ∈ xs → z ∈ xs → Less compare x y → Less compare y z →
    Less compare x z

theorem Apart.symm (apart : Apart compare x y) : Apart compare y x := by
  rcases apart with ⟨less, greater⟩ | ⟨greater, less⟩
  · exact .inr ⟨greater, less⟩
  · exact .inl ⟨less, greater⟩

namespace Ranked

theorem sub (ranked : Ranked compare xs) (sub : ys.Sublist xs) : Ranked compare ys where
  apart := ranked.apart.sublist sub
  trans hx hy hz := ranked.trans (sub.subset hx) (sub.subset hy) (sub.subset hz)

theorem perm (ranked : Ranked compare xs) (perm : ys.Perm xs) : Ranked compare ys where
  apart := (perm.pairwise_iff Apart.symm).mpr ranked.apart
  trans hx hy hz := ranked.trans (perm.mem_iff.mp hx) (perm.mem_iff.mp hy) (perm.mem_iff.mp hz)

end Ranked

/-- An element finds its place in a descending list. -/
theorem insertDescending_ranked (ranked : Ranked compare (x :: xs))
    (sorted : xs.Pairwise fun a b => Less compare b a) :
    ∃ longer, insertDescending compare x xs = .ok longer ∧ longer.Perm (x :: xs) ∧
      longer.Pairwise fun a b => Less compare b a := by
  induction xs with
  | nil => exact ⟨[x], rfl, .refl _, by simp⟩
  | cons y ys ih =>
    obtain ⟨belowY, sortedYs⟩ := List.pairwise_cons.mp sorted
    have apart := (List.pairwise_cons.mp ranked.apart).1 y List.mem_cons_self
    rcases apart with ⟨less, _⟩ | ⟨greater, less⟩
    · obtain ⟨longer, done, perm, sortedLonger⟩ :=
        ih (ranked.sub ((List.sublist_cons_self y ys).cons_cons x)) sortedYs
      refine ⟨y :: longer, ?_, (perm.cons y).trans (.swap ..), List.pairwise_cons.mpr
        ⟨?_, sortedLonger⟩⟩
      · simp [insertDescending, less, done, bind, Except.bind, pure, Except.pure]
      · intro z member
        rcases List.mem_cons.mp (perm.mem_iff.mp member) with rfl | inYs
        · exact less
        · exact belowY z inYs
    · refine ⟨x :: y :: ys, ?_, .refl _, List.pairwise_cons.mpr ⟨?_, sorted⟩⟩
      · simp [insertDescending, greater, bind, Except.bind, pure, Except.pure]
      · intro z member
        rcases List.mem_cons.mp member with rfl | inYs
        · exact less
        · exact ranked.trans (by simp [inYs]) (by simp) (by simp) (belowY z inYs) less

theorem sortDescending_ranked (ranked : Ranked compare (xs ++ ys))
    (sorted : xs.Pairwise fun a b => Less compare b a) :
    ∃ longer, sortDescending compare xs ys = .ok longer ∧ longer.Perm (xs ++ ys) ∧
      longer.Pairwise fun a b => Less compare b a := by
  induction ys generalizing xs with
  | nil => exact ⟨xs, rfl, by simp, sorted⟩
  | cons y ys ih =>
    have first : Ranked compare (y :: xs) :=
      (ranked.sub ((List.Sublist.refl xs).append (by simp : [y].Sublist (y :: ys)))).perm
        (List.perm_append_singleton y xs).symm
    obtain ⟨taken, doneFirst, permFirst, sortedFirst⟩ := insertDescending_ranked first sorted
    have perm : (taken ++ ys).Perm (xs ++ y :: ys) :=
      (permFirst.append_right ys).trans List.perm_middle.symm
    obtain ⟨longer, done, permLonger, sortedLonger⟩ := ih (ranked.perm perm) sortedFirst
    refine ⟨longer, ?_, permLonger.trans perm, sortedLonger⟩
    simp [sortDescending, doneFirst, done, bind, Except.bind]

/-- Sorting puts elements in ascending order. -/
theorem sortStable_ranked (ranked : Ranked compare xs) :
    ∃ sorted, sortStable compare xs = .ok sorted ∧ sorted.Perm xs ∧
      sorted.Pairwise (Less compare) := by
  obtain ⟨descending, done, perm, sorted⟩ :=
    sortDescending_ranked (show Ranked compare ([] ++ xs) from ranked) .nil
  refine ⟨descending.reverse, ?_, (List.reverse_perm _).trans perm,
    List.pairwise_reverse.mpr sorted⟩
  rw [sortStable, done]
  rfl

namespace KeyOrder

variable {order : KeyOrder} {keys : Bytes → Prop} {entries : List Bytes}

/-- Entries that an order tells apart are ranked by it. -/
theorem TotalOn.ranked (total : order.TotalOn keys)
    (readable : ∀ entry ∈ entries, HasKey keys entry) (untied : order.Untied entries) :
    Ranked order.compareEntries entries where
  apart := by
    refine untied.imp_of_mem ?_
    intro a b inA inB different
    have keyA := readable a inA
    have keyB := readable b inB
    rcases total.below_or_ties_or_above keyA keyB with below | ties | above
    · exact .inl ⟨below, total.compareEntries_swap keyA keyB below⟩
    · exact absurd ties different
    · exact .inr ⟨total.compareEntries_swap keyB keyA above, above⟩
  trans inX inY inZ := total.below_trans (readable _ inX) (readable _ inY) (readable _ inZ)

theorem TotalOn.exists_sorted (total : order.TotalOn keys)
    (readable : ∀ entry ∈ entries, HasKey keys entry) (untied : order.Untied entries) :
    ∃ sorted : List Bytes, sorted.Perm entries ∧ order.Sorted sorted := by
  obtain ⟨sorted, _, perm, ascending⟩ := sortStable_ranked (total.ranked readable untied)
  exact ⟨sorted, perm, ascending⟩

end KeyOrder

namespace Shelf

variable {shelf : Shelf} {handles : List Handle} {runs : List (List Handle)} {entries : List Bytes}
  {keys : Bytes → Prop}

/-- What holds of the entries, pair by pair, holds of the handles. -/
theorem Reads.pairwise_iff (reads : shelf.Reads handles entries)
    {onHandles : Handle → Handle → Prop} {onEntries : Bytes → Bytes → Prop}
    (same : ∀ {a b x y}, shelf.arena.get a = .ok x → shelf.arena.get b = .ok y →
      (onHandles a b ↔ onEntries x y)) :
    handles.Pairwise onHandles ↔ entries.Pairwise onEntries := by
  induction handles generalizing entries with
  | nil =>
    obtain rfl : entries = [] := by simpa [Reads] using reads.symm
    simp
  | cons handle rest ih =>
    cases entries with
    | nil => simp [Reads] at reads
    | cons entry others =>
      simp only [Reads, List.map_cons, List.cons.injEq] at reads
      have readRest : shelf.Reads rest others := reads.2
      rw [List.pairwise_cons, List.pairwise_cons, ih readRest]
      refine and_congr_left fun _ => ⟨?_, ?_⟩
      · intro onAll other member
        obtain ⟨named, inRest, read⟩ := readRest.exists_handle member
        exact (same reads.1 read).mp (onAll named inRest)
      · intro onAll named member
        obtain ⟨other, inOthers, read⟩ := readRest.exists_entry member
        exact (same reads.1 read).mpr (onAll other inOthers)

theorem Reads.sorted_iff (reads : shelf.Reads handles entries) :
    handles.Pairwise (Less shelf.compareHandles) ↔ shelf.order.Sorted entries := by
  refine reads.pairwise_iff ?_
  intro a b x y readA readB
  rw [Less, compareHandles_eq readA readB, KeyOrder.Below]

/-- Handles of entries that the order tells apart are ranked. -/
theorem Reads.ranked (reads : shelf.Reads handles entries) (total : shelf.order.TotalOn keys)
    (readable : ∀ entry ∈ entries, HasKey keys entry)
    (untied : shelf.order.Untied entries) :
    Ranked shelf.compareHandles handles where
  apart := by
    refine (reads.pairwise_iff ?_).mpr (total.ranked readable untied).apart
    intro a b x y readA readB
    rw [Apart, compareHandles_eq readA readB, compareHandles_eq readB readA, Apart]
  trans := by
    intro a b c inA inB inC ab bc
    obtain ⟨x, inX, readA⟩ := reads.exists_entry inA
    obtain ⟨y, inY, readB⟩ := reads.exists_entry inB
    obtain ⟨z, inZ, readC⟩ := reads.exists_entry inC
    rw [Less, compareHandles_eq readA readB] at ab
    rw [Less, compareHandles_eq readB readC] at bc
    rw [Less, compareHandles_eq readA readC]
    exact (total.ranked readable untied).trans inX inY inZ ab bc

/-- Sorting handles puts their entries in ascending order. -/
theorem Reads.sorts (reads : shelf.Reads handles entries) (total : shelf.order.TotalOn keys)
    (readable : ∀ entry ∈ entries, HasKey keys entry) (untied : shelf.order.Untied entries) :
    ∃ sorted arranged, sortStable shelf.compareHandles handles = .ok sorted ∧
      shelf.Reads sorted arranged ∧ shelf.order.Sorted arranged ∧ arranged.Perm entries := by
  obtain ⟨sorted, done, permuted, ordered⟩ := sortStable_ranked (reads.ranked total readable untied)
  obtain ⟨arranged, readArranged, perm⟩ := reads.perm permuted
  exact ⟨sorted, arranged, done, readArranged, readArranged.sorted_iff.mp ordered, perm⟩

/-- A handle names an entry whose key is of a class. -/
def Readable (shelf : Shelf) (keys : Bytes → Prop) (handle : Handle) : Prop :=
  ∃ entry, shelf.arena.get handle = .ok entry ∧ HasKey keys entry

theorem Reads.readable (reads : shelf.Reads handles entries)
    (hasKeys : ∀ entry ∈ entries, HasKey keys entry) :
    ∀ handle ∈ handles, shelf.Readable keys handle := by
  intro handle member
  obtain ⟨entry, inEntries, read⟩ := reads.exists_entry member
  exact ⟨entry, read, hasKeys entry inEntries⟩

/-- Whether the entry of a handle is not above that of another one. -/
def notAbove (shelf : Shelf) (a b : Handle) : Bool :=
  match shelf.compareHandles a b with
  | .ok ordering => ordering.isLE
  | .error _ => false

theorem notAbove_iff {a b : Handle} {ordering : Ordering}
    (answer : shelf.compareHandles a b = .ok ordering) :
    shelf.notAbove a b = true ↔ ordering ≠ .gt := by
  rw [notAbove, answer]
  cases ordering <;> simp

theorem compareHandles_keys {a b : Handle} {x y keyA keyB : Bytes}
    (readA : shelf.arena.get a = .ok x) (cutA : entryKey x = .ok keyA)
    (readB : shelf.arena.get b = .ok y) (cutB : entryKey y = .ok keyB) :
    shelf.compareHandles a b = shelf.order.compareKeys keyA keyB := by
  rw [compareHandles_eq readA readB, KeyOrder.compareEntries_eq _ cutB,
    KeyOrder.compareEntryKey_eq _ cutA]

/-- Handles of readable entries are weighed by an order that is total on their keys. -/
theorem weighs (total : shelf.order.TotalOn keys) :
    Weighs shelf.compareHandles (fun handle : { handle // shelf.Readable keys handle } => handle.1)
      fun a b => shelf.notAbove a.1 b.1 where
  answers a b := by
    obtain ⟨x, readA, keyA, cutA, heldA⟩ := a.2
    obtain ⟨y, readB, keyB, cutB, heldB⟩ := b.2
    obtain ⟨ordering, answer⟩ := total.answers heldA heldB
    rw [← compareHandles_keys readA cutA readB cutB] at answer
    exact ⟨ordering, answer, notAbove_iff answer⟩
  swap a b ordering answer := by
    obtain ⟨x, readA, keyA, cutA, heldA⟩ := a.2
    obtain ⟨y, readB, keyB, cutB, heldB⟩ := b.2
    rw [compareHandles_keys readA cutA readB cutB] at answer
    rw [compareHandles_keys readB cutB readA cutA]
    exact total.swap heldA heldB answer
  trans a b c ab bc := by
    obtain ⟨x, readA, keyA, cutA, heldA⟩ := a.2
    obtain ⟨y, readB, keyB, cutB, heldB⟩ := b.2
    obtain ⟨z, readC, keyC, cutC, heldC⟩ := c.2
    have trans := total.trans heldA heldB heldC
    obtain ⟨first, answerAB⟩ := total.answers heldA heldB
    obtain ⟨second, answerBC⟩ := total.answers heldB heldC
    obtain ⟨outer, answerAC⟩ := total.answers heldA heldC
    rw [answerAB, answerBC, answerAC] at trans
    rw [← compareHandles_keys readA cutA readB cutB] at answerAB
    rw [← compareHandles_keys readB cutB readC cutC] at answerBC
    rw [← compareHandles_keys readA cutA readC cutC] at answerAC
    rw [notAbove_iff answerAB] at ab
    rw [notAbove_iff answerBC] at bc
    rw [notAbove_iff answerAC]
    simpa using trans (by simpa using ab) (by simpa using bc)

theorem exists_readable (readable : ∀ run ∈ runs, ∀ handle ∈ run, shelf.Readable keys handle) :
    ∃ lifted : List (List { handle // shelf.Readable keys handle }),
      runs = lifted.map (·.map Subtype.val) := by
  lift runs to List (List { handle // shelf.Readable keys handle }) using readable
  exact ⟨runs, rfl⟩

/-- Merging runs of handles in ascending order puts their entries in ascending order. -/
theorem Reads.merges (reads : shelf.Reads runs.flatten entries)
    (total : shelf.order.TotalOn keys) (hasKeys : ∀ entry ∈ entries, HasKey keys entry)
    (untied : shelf.order.Untied entries)
    (sorted : ∀ run ∈ runs, run.Pairwise (Less shelf.compareHandles)) :
    ∃ merged arranged, mergeRuns shelf.compareHandles runs = .ok merged ∧
      shelf.Reads merged arranged ∧ shelf.order.Sorted arranged ∧ arranged.Perm entries := by
  have ranked := reads.ranked total hasKeys untied
  obtain ⟨lifted, rfl⟩ := exists_readable fun run member handle inRun =>
    reads.readable hasKeys handle (List.mem_flatten.mpr ⟨run, member, inRun⟩)
  have weighs := weighs total
  let merged := (mergeAll (fun a b => shelf.notAbove a.1 b.1) lifted).map Subtype.val
  have perm : merged.Perm (lifted.map (·.map Subtype.val)).flatten := by
    rw [← List.map_flatten]
    exact (mergeAll_perm _ lifted).map Subtype.val
  have notAbove : merged.Pairwise fun a b => shelf.notAbove a b = true := by
    refine List.pairwise_map.mpr (mergeAll_sorted weighs.trans weighs.total ?_)
    intro run member
    refine (List.pairwise_map.mp (sorted _ (List.mem_map_of_mem member))).imp ?_
    intro a b less
    exact (notAbove_iff less).mpr (by decide)
  have ordered : merged.Pairwise (Less shelf.compareHandles) := by
    refine (notAbove.and (ranked.perm perm).apart).imp ?_
    rintro a b ⟨notAbove, ⟨less, _⟩ | ⟨greater, _⟩⟩
    · exact less
    · exact absurd rfl ((notAbove_iff greater).mp notAbove)
  obtain ⟨arranged, readArranged, permArranged⟩ := reads.perm perm
  exact ⟨merged, arranged, mergeRuns_eq weighs lifted, readArranged,
    readArranged.sorted_iff.mp ordered, permArranged⟩

end Shelf

end WriteBuffer
