import Mathlib
import WriteBuffer.Proofs.Runs
import WriteBuffer.Proofs.Table.Cursor
import WriteBuffer.Proofs.WellFormed

/-!
Scans of ordered tables. A cursor over all entries of a table follows them in order
(`MemTable.Holds.opensAll`), so a scan in either direction shows every accepted entry once and in
order, and tables that accepted the same entries show the same, however they arrange them
(`MemTable.scan_sorts_accepted`).
-/
namespace WriteBuffer

namespace MemTable

variable {order : KeyOrder} {placing : Option (Placement × Nat)} {taken : List Bytes}
  {keys : Bytes → Prop} {table : MemTable}

theorem vector_opensAll {table : VectorTable} (holds : table.index.Holds table.shelf taken)
    (total : table.shelf.order.TotalOn keys) (readable : ∀ entry ∈ taken, HasKey keys entry)
    (untied : table.shelf.order.Untied taken) (range : Range) :
    ∃ entries place, ((vector table).openCursor range).2 = .ok (place none) ∧
      ((vector table).openCursor range).1.moves.Follows table.shelf.order entries place ∧
      table.shelf.order.Sorted entries ∧ entries.Perm taken := by
  obtain ⟨handles, entries, opened, reads, sorted, perm, shelf, _⟩ :=
    VectorTable.sortedHandles_holds holds total readable untied
  refine ⟨entries, fun position => .run { handles, position }, ?_, ?_, sorted, perm⟩
  · simp only [MemTable.openCursor, VectorTable.cursor, opened]
    rfl
  · rw [← shelf] at reads ⊢
    exact bucketMoves_run (RunCursor.follows reads)

/-- A cursor over all entries of an ordered table follows them in order. -/
theorem Holds.opensAll (holds : table.Holds order placing taken) (total : order.TotalOn keys)
    (readable : ∀ entry ∈ taken, HasKey keys entry) (untied : order.Untied taken) :
    ∃ entries place, (table.openCursor .all).2 = .ok (place none) ∧
      (table.openCursor .all).1.moves.Follows order entries place ∧ order.Sorted entries ∧
      entries.Perm taken := by
  obtain ⟨rfl, rfl, index⟩ := holds
  cases table with
  | cuckoo table => exact index.elim
  | vector table => exact vector_opensAll index total readable untied .all
  | skipList table =>
    obtain ⟨rows, entries, arranges⟩ := index
    exact ⟨entries, fun at? => .list { place := nodeAt rows at? }, rfl,
      bucketMoves_list (arranges.follows total readable), arranges.sorted, arranges.all⟩
  | hashedSkipLists table =>
    obtain ⟨handles, entries, merged, reads, sorted, perm⟩ :=
      HashedSkipTable.sortedHandles_holds index total readable untied
    refine ⟨entries, fun position => .run { handles, position }, ?_,
      bucketMoves_run (RunCursor.follows reads), sorted, perm⟩
    simp only [MemTable.openCursor, merged]
    rfl
  | hashedChains table =>
    obtain ⟨handles, entries, merged, reads, sorted, perm⟩ :=
      HashedChainTable.sortedHandles_holds index total readable untied
    refine ⟨entries, fun position => .run { handles, position }, ?_,
      bucketMoves_run (RunCursor.follows reads), sorted, perm⟩
    simp only [MemTable.openCursor, merged]
    rfl

/-- Scans in both directions show what an ordered table holds. -/
theorem Holds.scans (holds : table.Holds order placing taken) (total : order.TotalOn keys)
    (readable : ∀ entry ∈ taken, HasKey keys entry) (untied : order.Untied taken) :
    ∃ entries, table.scan.2 = .ok entries ∧ table.scanBackward.2 = .ok entries.reverse ∧
      order.Sorted entries ∧ entries.Perm taken := by
  obtain ⟨entries, place, opened, follows, sorted, perm⟩ := holds.opensAll total readable untied
  obtain ⟨start, first, forward⟩ := follows.walk_first none
  obtain ⟨stop, last, backward⟩ := follows.walk_last none
  refine ⟨entries, ?_, ?_, sorted, perm⟩
  · simp only [scan, opened, bind, Except.bind, first, forward]
  · simp only [scanBackward, opened, bind, Except.bind, last, backward]

/-- Scans of an ordered table, after whatever was done to it, show exactly the entries that it
accepted, in order and in the opposite order; and what they show depends on no more than the set of
these entries. -/
theorem scan_sorts_accepted (total : order.TotalOn IsInternalKey) (fresh : Fresh order table)
    (operations : List Operation)
    (wellFormed : ∀ entry ∈ accepted table operations, WellFormed entry)
    (untied : order.Untied (accepted table operations)) :
    ∃ entries, (table.run operations).scan.2 = .ok entries ∧
      (table.run operations).scanBackward.2 = .ok entries.reverse ∧
      entries.Perm (accepted table operations) ∧ order.Sorted entries ∧
      ∀ other others, Fresh order other → order.Untied (accepted other others) →
        (∀ entry, entry ∈ accepted other others ↔ entry ∈ accepted table operations) →
        (other.run others).scan.2 = .ok entries ∧
          (other.run others).scanBackward.2 = .ok entries.reverse := by
  have readable : ∀ entry ∈ accepted table operations, HasKey IsInternalKey entry :=
    fun entry member => (wellFormed entry member).isInternalKey
  obtain ⟨entries, forward, backward, sorted, perm⟩ :=
    (run_holds fresh total operations readable fun _ => untied).scans total readable untied
  refine ⟨entries, forward, backward, perm, sorted, ?_⟩
  intro other others freshOther untiedOther same
  have readableOther : ∀ entry ∈ accepted other others, HasKey IsInternalKey entry :=
    fun entry member => readable entry ((same entry).mp member)
  obtain ⟨found, forwardOther, backwardOther, sortedOther, permOther⟩ :=
    (run_holds freshOther total others readableOther fun _ => untiedOther).scans total
      readableOther untiedOther
  have members : ∀ entry, entry ∈ found ↔ entry ∈ entries := by
    intro entry
    rw [permOther.mem_iff, same, perm.mem_iff]
  obtain rfl := total.sorted_ext (fun entry member => readableOther entry
    (permOther.mem_iff.mp member)) sortedOther sorted members
  exact ⟨forwardOther, backwardOther⟩

/-- Two entries that are inserted out of order are scanned in order. -/
theorem scan_sorts_two :
    let table := hashedChains {
      shelf := { order := .versioned, arena := { id := 0 } }
      index := { placement := { rule := .whole, hash := fun _ => 0 }, heads := .empty 1 } }
    let a : Bytes := [9, 0, 0, 0, 97, 1, 1, 0, 0, 0, 0, 0, 0, 0, 0, 0, 0]
    let b : Bytes := [9, 0, 0, 0, 98, 1, 1, 0, 0, 0, 0, 0, 0, 0, 0, 0, 0]
    let operations : List Operation := [.insert ⟨0, ⟨0⟩, b⟩, .insert ⟨0, ⟨1⟩, a⟩]
    accepted table operations = [b, a] ∧
      ∃ entries, (table.run operations).scan.2 = .ok entries ∧ entries.Perm [b, a] := by
  intro table a b operations
  have both : accepted table operations = [b, a] := by decide +kernel
  have total : KeyOrder.versioned.TotalOn IsInternalKey :=
    KeyOrder.versioned_totalOn.mono fun _ => hasTag_of_isInternalKey
  have fresh : Fresh .versioned table := @Fresh.hashedChains _ _ _ _ 1 0 rfl rfl
  have wellFormed : ∀ entry ∈ accepted table operations, WellFormed entry := by
    rw [both]
    intro entry member
    rcases List.mem_pair.mp member with rfl | rfl
    · exact ⟨⟨[98], 1, .put, []⟩, by decide +kernel⟩
    · exact ⟨⟨[97], 1, .put, []⟩, by decide +kernel⟩
  have untied : KeyOrder.versioned.Untied (accepted table operations) := by
    rw [both]
    simp only [KeyOrder.Untied, List.pairwise_pair]
    decide +kernel
  obtain ⟨entries, forward, _, perm, _⟩ :=
    scan_sorts_accepted total fresh operations wellFormed untied
  exact ⟨both, entries, forward, both ▸ perm⟩

end MemTable

end WriteBuffer
