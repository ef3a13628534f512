import Mathlib
import WriteBuffer.Proofs.Arranging
import WriteBuffer.Proofs.Cursor.Halving
import WriteBuffer.Proofs.Table.Basic
import WriteBuffer.Table.Vector

/-!
Tables that sort at the first read. The handles name the entries that were taken in, and once they
count as sorted they are (`VectorIndex.Holds`). An insert adds its entry or changes nothing
(`VectorTable.insert_holds`), the sort of entries that the order tells apart always succeeds
(`VectorTable.sortedHandles_holds`), and the search in them is exact (`VectorTable.contains_eq`).
-/
namespace WriteBuffer

variable {keys : Bytes → Prop} {taken : List Bytes}

/-- The handles of an index name exactly the entries that were taken in. -/
def VectorIndex.Holds (index : VectorIndex) (shelf : Shelf) (taken : List Bytes) : Prop :=
  ∃ entries, shelf.Reads index.handles entries ∧ entries.Perm taken ∧
    (index.sorted = true → shelf.order.Sorted entries)

theorem VectorIndex.Holds.keeps {index : VectorIndex} {shelf new : Shelf}
    (holds : index.Holds shelf taken) (order : new.order = shelf.order)
    (keeps : shelf.arena.Keeps new.arena) : index.Holds new taken := by
  obtain ⟨entries, reads, perm, sorted⟩ := holds
  exact ⟨entries, reads.keeps keeps, perm, order ▸ sorted⟩

namespace VectorTable

variable {table : VectorTable} {draft : Draft}

theorem create_ok {shelf : Shelf} {count : Nat} (made : create shelf count = .ok table) :
    table = { shelf, index := { capacity := count } } := by
  simp only [create, bind_eq_ok, pure, Except.pure, Except.ok.injEq] at made
  obtain ⟨_, _, same⟩ := made
  exact same.symm

/-- An insert fails and leaves the handles as they were, or publishes its entry and appends the handle. -/
theorem insert_cases (draft : Draft) (table : VectorTable) :
    (∃ failure, (insert draft table).2 = .error failure ∧ table.Stays (insert draft table).1) ∨
    ((insert draft table).2 = .ok () ∧ table.index.sorted = false ∧
      (insert draft table).1.index = table.index.push draft.handle ∧
      table.shelf.Extends (insert draft table).1.shelf ∧
      (insert draft table).1.shelf.arena.get draft.handle = .ok draft.bytes) := by
  rcases Table.asWriter_takeIn .vector draft _ _ table with
    failed | ⟨gate, _, published, changed, _, asked, stored, done, inserted, shelf, index, _⟩
  · exact .inl failed
  · by_cases sorted : table.index.sorted
    · simp [sorted] at asked
    · obtain ⟨arena, added, rfl⟩ := Table.publish_ok stored
      obtain ⟨read, keeps⟩ := Arena.get_publish added
      obtain rfl := Except.ok.inj done
      rw [insert, ← shelf, ← index]
      exact .inr ⟨inserted, Bool.eq_false_of_not_eq_true sorted, rfl, ⟨rfl, keeps⟩, read⟩

theorem insert_isReadOnly (draft : Draft) (table : VectorTable) :
    (insert draft table).1.isReadOnly = table.isReadOnly := by
  apply Table.asWriter_isReadOnly
  apply Table.takeIn_gate
  intro _ published changed done
  obtain rfl := Except.ok.inj done
  rfl

/-- An insert adds its entry or changes nothing. -/
theorem insert_holds (holds : table.index.Holds table.shelf taken) (draft : Draft) :
    (insert draft table).1.shelf.order = table.shelf.order ∧
      (insert draft table).1.index.Holds (insert draft table).1.shelf
        (taken ++ gained draft (insert draft table).2) := by
  rcases insert_cases draft table with
    ⟨failure, failed, order, keeps, index⟩ | ⟨inserted, unsorted, index, ⟨order, keeps⟩, read⟩
  · rw [failed, index, gained, List.append_nil]
    exact ⟨order, holds.keeps order keeps⟩
  · obtain ⟨entries, reads, perm, _⟩ := holds
    have one : Shelf.Reads (insert draft table).1.shelf [draft.handle] [draft.bytes] := by
      simp only [Shelf.Reads, List.map_singleton, read]
    rw [inserted, index, gained]
    refine ⟨order, entries ++ [draft.bytes], (reads.keeps keeps).append one, perm.append_right _, ?_⟩
    intro sorted
    cases unsorted.symm.trans sorted

/-- A sort changes neither the shelf nor the gate, even if it fails. -/
theorem sortedHandles_same (table : VectorTable) :
    table.sortedHandles.1.shelf = table.shelf ∧ table.sortedHandles.1.gate = table.gate := by
  simp only [sortedHandles]
  split
  · exact ⟨rfl, rfl⟩
  · split <;> exact ⟨rfl, rfl⟩

/-- Entries that the order tells apart are sorted at the first read and stay so. -/
theorem sortedHandles_holds (holds : table.index.Holds table.shelf taken)
    (total : table.shelf.order.TotalOn keys) (readable : ∀ entry ∈ taken, HasKey keys entry)
    (untied : table.shelf.order.Untied taken) :
    ∃ handles entries, table.sortedHandles.2 = .ok handles ∧
      table.shelf.Reads handles entries ∧ table.shelf.order.Sorted entries ∧ entries.Perm taken ∧
      table.sortedHandles.1.shelf = table.shelf ∧
      table.sortedHandles.1.index.Holds table.shelf taken := by
  have whole := holds
  obtain ⟨entries, reads, perm, inOrder⟩ := holds
  by_cases sorted : table.index.sorted
  · simp only [sortedHandles, sorted, if_true]
    exact ⟨_, entries, rfl, reads, inOrder sorted, perm, trivial, whole⟩
  · have apart := total.untied_perm readable untied perm
    have readable : ∀ entry ∈ entries, HasKey keys entry := fun entry member =>
      readable entry (perm.mem_iff.mp member)
    obtain ⟨handles, arranged, done, readArranged, ordered, permArranged⟩ :=
      reads.sorts total readable apart
    have permArranged := permArranged.trans perm
    simp only [sortedHandles, sorted, Bool.false_eq_true, if_false, done]
    exact ⟨handles, arranged, rfl, readArranged, ordered, permArranged, rfl, arranged, readArranged,
      permArranged, fun _ => ordered⟩

/-- A search for a key finds it exactly if an entry that was taken in has a key equal to it. -/
theorem contains_eq (holds : table.index.Holds table.shelf taken)
    (total : table.shelf.order.TotalOn keys) (readable : ∀ entry ∈ taken, HasKey keys entry)
    (untied : table.shelf.order.Untied taken) {target : Bytes} (held : keys target) :
    ∃ answer, (table.contains target).2 = .ok answer ∧
      (answer = true ↔ ∃ entry ∈ taken, table.shelf.order.compareEntryKey entry target = .ok .eq) := by
  obtain ⟨handles, entries, found, reads, sorted, perm, shelf, _⟩ :=
    sortedHandles_holds holds total readable untied
  have readable : ∀ entry ∈ entries, HasKey keys entry := fun entry member =>
    readable entry (perm.mem_iff.mp member)
  obtain ⟨front, back, rfl, split⟩ := total.splits held readable sorted
  obtain ⟨first, rest, rfl, readFirst, readRest, _⟩ := reads.split split
  have below : ∀ handle ∈ first, table.shelf.compareKey handle target = .ok .lt := by
    intro handle member
    obtain ⟨entry, inFront, read⟩ := readFirst.exists_entry member
    rw [Shelf.compareKey_eq read, split.below entry inFront]
  simp only [← perm.mem_iff, total.exists_eq_iff held readable sorted split, contains, found, shelf,
    bind, Except.bind]
  cases back with
  | nil =>
    obtain rfl : rest = [] := by simpa using readRest.length_eq
    rw [binarySearch_split below (by simp)]
    exact ⟨false, rfl, by simp⟩
  | cons next later =>
    cases rest with
    | nil => simp [Shelf.Reads] at readRest
    | cons handle others =>
      simp only [Shelf.Reads, List.map_cons, List.cons.injEq] at readRest
      obtain ⟨ordering, answer, notLess⟩ := split.notBelow next List.mem_cons_self
      have above : ∀ other ∈ others, table.shelf.compareKey other target = .ok .gt := by
        intro other member
        obtain ⟨entry, inLater, read⟩ := Shelf.Reads.exists_entry readRest.2 member
        rw [Shelf.compareKey_eq read]
        exact total.above_rest held (fun entry member => readable entry (List.mem_append_right _ member))
          (List.pairwise_append.mp sorted).2.1 answer notLess entry inLater
      have probed : table.shelf.compareKey handle target = .ok ordering := by
        rw [Shelf.compareKey_eq readRest.1, answer]
      cases ordering with
      | lt => exact absurd rfl notLess
      | eq =>
        rw [binarySearch_found below probed above]
        exact ⟨true, rfl, by simp [answer]⟩
      | gt =>
        rw [binarySearch_split below (List.forall_mem_cons.mpr ⟨probed, above⟩)]
        exact ⟨false, rfl, by simp [answer]⟩

end VectorTable

end WriteBuffer
