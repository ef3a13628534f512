import Mathlib
import WriteBuffer.Proofs.Runs
import WriteBuffer.Proofs.Table.Cuckoo

/-!
What no operation takes away. An insert leaves the shelf of a table as it was or publishes its entry
(`MemTable.insert_taking`), and whatever is done to a table, of any kind and with any order, every entry
that was published stays readable under its handle (`MemTable.run_extends`).
-/
namespace WriteBuffer

theorem SkipTable.insert_taking (draft : Draft) (table : SkipTable) :
    table.shelf.Taking draft ((insert draft table).1.shelf, (insert draft table).2) := by
  refine Table.asWriter_taking _ (Table.takeIn_taking _ _ ?_) table
  intro _ published changed done
  simp only [bind_eq_ok, pure, Except.pure, Except.ok.injEq] at done
  obtain ⟨_, _, rfl⟩ := done
  rfl

theorem VectorTable.insert_taking (draft : Draft) (table : VectorTable) :
    table.shelf.Taking draft ((insert draft table).1.shelf, (insert draft table).2) := by
  refine Table.asWriter_taking _ (Table.takeIn_taking _ _ ?_) table
  intro _ published changed done
  obtain rfl := Except.ok.inj done
  rfl

theorem HashedSkipTable.insert_taking (draft : Draft) (table : HashedSkipTable) :
    table.shelf.Taking draft ((insert draft table).1.shelf, (insert draft table).2) := by
  refine Table.asWriter_taking _ ?_ table
  intro table
  cases offer table draft.bytes with
  | error failure => exact .refused failure
  | ok offer =>
    obtain ⟨bucket, list, taken⟩ := offer
    refine Table.takeIn_taking _ _ ?_ (setList table bucket list)
    intro _ published changed done
    simp only [bind_eq_ok, pure, Except.pure, Except.ok.injEq] at done
    obtain ⟨_, _, rfl⟩ := done
    rfl

theorem HashedChainTable.insert_taking (draft : Draft) (table : HashedChainTable) :
    table.shelf.Taking draft ((insert draft table).1.shelf, (insert draft table).2) := by
  refine Table.asWriter_taking _ (Table.takeIn_taking _ _ ?_) table
  intro _ published changed done
  simp only [bind_eq_ok, pure, Except.pure, Except.ok.injEq] at done
  obtain ⟨_, _, rfl⟩ := done
  rfl

namespace CuckooTable

theorem house_shelf {table housed : CuckooTable} {handle : Handle}
    (done : house table handle = .ok housed) : housed.shelf = table.shelf := by
  simp only [house, bind_eq_ok] at done
  obtain ⟨settled, found, done⟩ := done
  cases settled with
  | none =>
    simp only [spill, bind_eq_ok, pure, Except.pure, Except.ok.injEq] at done
    obtain ⟨_, _, rfl⟩ := done
    rfl
  | some settled =>
    obtain rfl := Except.ok.inj done
    obtain ⟨_, _, rfl, _⟩ := settle_changes found
    rfl

theorem insert_taking (draft : Draft) (table : CuckooTable) :
    table.shelf.Taking draft ((insert draft table).1.shelf, (insert draft table).2) :=
  Table.asWriter_taking _ (Table.takeIn_taking _ _ fun _ _ _ => house_shelf) table

end CuckooTable

namespace MemTable

/-- An insert leaves the shelf of a table as it was or publishes its entry. -/
theorem insert_taking (table : MemTable) (draft : Draft) :
    table.shelf.Taking draft ((table.insert draft).1.shelf, (table.insert draft).2) := by
  cases table with
  | skipList table => exact SkipTable.insert_taking draft table
  | vector table => exact VectorTable.insert_taking draft table
  | hashedSkipLists table => exact HashedSkipTable.insert_taking draft table
  | hashedChains table => exact HashedChainTable.insert_taking draft table
  | cuckoo table => exact CuckooTable.insert_taking draft table

/-- An operation adds to the shelf of a table and takes nothing away. -/
theorem perform_extends (table : MemTable) (operation : Operation) :
    table.shelf.Extends (table.perform operation).shelf := by
  have opened : ∀ range, table.shelf.Extends (table.openCursor range).1.shelf := by
    intro range
    cases table with
    | vector table =>
      have same := (VectorTable.sortedHandles_same table).1
      exact ⟨congrArg Shelf.order same, fun found => (congrArg Shelf.arena same).symm ▸ found⟩
    | skipList table | hashedSkipLists table | hashedChains table | cuckoo table => exact .refl _
  cases operation with
  | allocate size =>
    cases table <;> exact ⟨rfl, Arena.keeps_allocate _ size⟩
  | insert draft => exact (insert_taking table draft).extends
  | openCursor range => exact opened range
  | contains internalKey =>
    cases table <;> exact opened .all
  | get key goesOn =>
    simp only [MemTable.perform, MemTable.get]
    cases key.userKey with
    | error failure => exact .refl _
    | ok userKey => cases table <;> exact opened (.bucketOf userKey)
  | close =>
    cases table with
    | vector table =>
      simp only [MemTable.perform, MemTable.close, VectorTable.close]
      split
      · exact .refl _
      · have same := (VectorTable.sortedHandles_same (Table.close .vector table)).1
        exact ⟨congrArg Shelf.order same, fun found => (congrArg Shelf.arena same).symm ▸ found⟩
    | skipList table | hashedSkipLists table | hashedChains table | cuckoo table => exact .refl _

/-- Every entry that was published before a run can be read after it. -/
theorem run_extends (table : MemTable) (operations : List Operation) :
    table.shelf.Extends (table.run operations).shelf := by
  induction operations generalizing table with
  | nil => exact .refl _
  | cons operation rest ih => exact (perform_extends table operation).trans (ih _)

end MemTable

end WriteBuffer
