import Mathlib
import WriteBuffer.MemTable
import WriteBuffer.Proofs.Table.Cuckoo
import WriteBuffer.Proofs.Table.HashedChain
import WriteBuffer.Proofs.Table.HashedSkip
import WriteBuffer.Proofs.Table.Skip
import WriteBuffer.Proofs.Table.Vector

/-!
Runs of tables. Whatever is done to an ordered table that was just made, in whatever order, it holds
exactly the entries of the inserts that succeeded (`MemTable.run_holds`).
-/
namespace WriteBuffer

/-- What may be done to a table. -/
inductive Operation
  | allocate (size : Nat)
  | insert (draft : Draft)
  | contains (internalKey : Bytes)
  | get (key : LookupKey) (goesOn : List Bytes → Bool)
  | openCursor (range : MemTable.Range)
  | close

namespace MemTable

/-- The table that an operation leaves behind. -/
def perform (table : MemTable) : Operation → MemTable
  | .allocate size => (table.allocate size).1
  | .insert draft => (table.insert draft).1
  | .contains internalKey => (table.contains internalKey).1
  | .get key goesOn => (table.get key goesOn).1
  | .openCursor range => (table.openCursor range).1
  | .close => table.close.1

/-- The entries that an operation adds: that of an insert that succeeds. -/
def added (table : MemTable) : Operation → List Bytes
  | .insert draft => gained draft (table.insert draft).2
  | .allocate _ | .contains _ | .get .. | .openCursor _ | .close => []

/-- The table that operations leave behind, carried out one after the other. -/
def run (table : MemTable) (operations : List Operation) : MemTable :=
  operations.foldl perform table

/-- The entries of the inserts that succeed, in the order of their insertion. -/
def accepted : MemTable → List Operation → List Bytes
  | _, [] => []
  | table, operation :: rest => table.added operation ++ accepted (table.perform operation) rest

theorem run_append (table : MemTable) (earlier later : List Operation) :
    table.run (earlier ++ later) = (table.run earlier).run later :=
  List.foldl_append ..

theorem accepted_append (table : MemTable) (earlier later : List Operation) :
    accepted table (earlier ++ later)
      = accepted table earlier ++ accepted (table.run earlier) later := by
  induction earlier generalizing table with
  | nil => rfl
  | cons operation rest ih =>
    simp only [List.cons_append, accepted, ih, List.append_assoc]
    rfl

/-- An ordered table as it is made, for entries in a given order. -/
inductive Fresh (order : KeyOrder) : MemTable → Prop
  | skipList {shelf : Shelf} (heights : Heights) (ordered : shelf.order = order) :
    Fresh order (skipList (SkipTable.create shelf heights))
  | vector {shelf : Shelf} {table : VectorTable} {count : Nat} (ordered : shelf.order = order)
    (made : VectorTable.create shelf count = .ok table) : Fresh order (vector table)
  | hashedSkipLists {shelf : Shelf} {table : HashedSkipTable} {placement : Placement}
    {heights : Heights} {buckets maxHeight branching : Nat} (ordered : shelf.order = order)
    (made : HashedSkipTable.create shelf placement heights buckets maxHeight branching
      = .ok table) : Fresh order (hashedSkipLists table)
  | hashedChains {shelf : Shelf} {table : HashedChainTable} {placement : Placement}
    {buckets hugePageSize : Nat} (ordered : shelf.order = order)
    (made : HashedChainTable.create shelf placement buckets hugePageSize = .ok table) :
    Fresh order (hashedChains table)

/-- How a hashed table places entries, and among how many buckets. -/
def placing : MemTable → Option (Placement × Nat)
  | hashedSkipLists table => some (table.index.placement, table.index.buckets.size)
  | hashedChains table => some (table.index.placement, table.index.heads.size)
  | _ => none

/-- What the index of an ordered table holds. -/
def IndexHolds (taken : List Bytes) : MemTable → Prop
  | skipList table => table.index.Holds table.shelf taken
  | vector table => table.index.Holds table.shelf taken
  | hashedSkipLists table => table.index.Holds table.shelf taken
  | hashedChains table => table.index.Holds table.shelf taken
  | cuckoo _ => False

/-- An ordered table holds exactly the given entries. -/
structure Holds (table : MemTable) (order : KeyOrder) (placing : Option (Placement × Nat))
    (taken : List Bytes) : Prop where
  order : table.shelf.order = order
  placing : table.placing = placing
  index : table.IndexHolds taken

variable {order : KeyOrder} {placing : Option (Placement × Nat)} {taken : List Bytes}
  {keys : Bytes → Prop} {table : MemTable}

theorem Fresh.holds (fresh : Fresh order table) : table.Holds order table.placing [] := by
  cases fresh with
  | skipList heights ordered => exact ⟨ordered, rfl, SkipIndex.holds_empty _ heights⟩
  | vector ordered made =>
    obtain rfl := VectorTable.create_ok made
    exact ⟨ordered, rfl, [], rfl, .refl _, fun _ => .nil⟩
  | hashedSkipLists ordered made =>
    obtain ⟨rfl, _, _, holds⟩ := HashedSkipTable.create_holds made
    exact ⟨ordered, rfl, holds⟩
  | hashedChains ordered made =>
    obtain ⟨rfl, _, _, holds⟩ := HashedChainTable.create_holds made
    exact ⟨ordered, rfl, holds⟩

theorem Holds.allocate (holds : table.Holds order placing taken) (size : Nat) :
    (table.allocate size).1.Holds order placing taken := by
  obtain ⟨ordered, placed, index⟩ := holds
  cases table with
  | cuckoo table => exact index.elim
  | skipList table | vector table | hashedSkipLists table | hashedChains table =>
    refine ⟨ordered, placed, ?_⟩
    have kept : table.index.Holds
        { table.shelf with arena := (table.shelf.arena.allocate size).1 } taken :=
      index.keeps rfl fun found => Arena.keeps_allocate _ size found
    exact kept

/-- An insert adds its entry if it succeeds. -/
theorem Holds.insert (holds : table.Holds order placing taken) (total : order.TotalOn keys)
    (readable : ∀ entry ∈ taken, HasKey keys entry) {draft : Draft}
    (hasKey : ∀ entry ∈ gained draft (table.insert draft).2, HasKey keys entry) :
    (table.insert draft).1.Holds order placing (taken ++ gained draft (table.insert draft).2) := by
  obtain ⟨rfl, rfl, index⟩ := holds
  cases table with
  | skipList table =>
    obtain ⟨ordered, holds⟩ := SkipTable.insert_holds index total readable hasKey
    exact ⟨ordered, rfl, holds⟩
  | vector table =>
    obtain ⟨ordered, holds⟩ := VectorTable.insert_holds index draft
    exact ⟨ordered, rfl, holds⟩
  | hashedSkipLists table =>
    obtain ⟨ordered, placement, size, holds⟩ :=
      HashedSkipTable.insert_holds index total readable hasKey
    exact ⟨ordered, congrArg some (Prod.ext placement size), holds⟩
  | hashedChains table =>
    obtain ⟨ordered, placement, size, holds⟩ :=
      HashedChainTable.insert_holds index total readable hasKey
    exact ⟨ordered, congrArg some (Prod.ext placement size), holds⟩
  | cuckoo table => exact index.elim

/-- Handing out a cursor adds nothing, even where it sorts. -/
theorem Holds.openCursor (holds : table.Holds order placing taken) (total : order.TotalOn keys)
    (readable : ∀ entry ∈ taken, HasKey keys entry)
    (untied : table.kind = .vector → order.Untied taken) (range : Range) :
    (table.openCursor range).1.Holds order placing taken := by
  obtain ⟨rfl, rfl, index⟩ := holds
  cases table with
  | cuckoo table => exact index.elim
  | skipList table | hashedSkipLists table | hashedChains table => exact ⟨rfl, rfl, index⟩
  | vector table =>
    obtain ⟨_, _, _, _, _, _, shelf, sorted⟩ :=
      VectorTable.sortedHandles_holds index total readable (untied rfl)
    exact ⟨congrArg Shelf.order shelf, rfl, by rwa [← shelf] at sorted⟩

/-- Closing a table adds nothing, even where it sorts. -/
theorem Holds.close (holds : table.Holds order placing taken) (total : order.TotalOn keys)
    (readable : ∀ entry ∈ taken, HasKey keys entry)
    (untied : table.kind = .vector → order.Untied taken) :
    table.close.1.Holds order placing taken := by
  obtain ⟨rfl, rfl, index⟩ := holds
  cases table with
  | cuckoo table => exact index.elim
  | skipList table | hashedSkipLists table | hashedChains table => exact ⟨rfl, rfl, index⟩
  | vector table =>
    simp only [MemTable.close, VectorTable.close]
    split
    · exact ⟨rfl, rfl, index⟩
    · have closed : (Table.close .vector table).index.Holds (Table.close .vector table).shelf taken :=
        index
      obtain ⟨_, _, _, _, _, _, shelf, sorted⟩ :=
        VectorTable.sortedHandles_holds closed total readable (untied rfl)
      exact ⟨congrArg Shelf.order shelf, rfl, by rwa [← shelf] at sorted⟩

/-- What one operation does to an ordered table. Only a sort needs to tell the entries apart. -/
theorem Holds.perform (holds : table.Holds order placing taken) (total : order.TotalOn keys)
    (operation : Operation)
    (readable : ∀ entry ∈ taken ++ table.added operation, HasKey keys entry)
    (untied : table.kind = .vector → order.Untied (taken ++ table.added operation)) :
    (table.perform operation).Holds order placing (taken ++ table.added operation) := by
  cases operation with
  | allocate size =>
    simp only [added, List.append_nil]
    exact holds.allocate size
  | insert draft =>
    exact holds.insert total (fun entry member => readable entry (List.mem_append_left _ member))
      fun entry member => readable entry (List.mem_append_right _ member)
  | contains internalKey =>
    simp only [added, List.append_nil] at readable untied ⊢
    have opened := holds.openCursor total readable untied .all
    cases table <;> exact opened
  | get key goesOn =>
    simp only [added, List.append_nil] at readable untied ⊢
    simp only [MemTable.perform, MemTable.get]
    cases key.userKey with
    | error failure => exact holds
    | ok userKey =>
      have opened := holds.openCursor total readable untied (.bucketOf userKey)
      cases table <;> exact opened
  | openCursor range =>
    simp only [added, List.append_nil] at readable untied ⊢
    exact holds.openCursor total readable untied range
  | close =>
    simp only [added, List.append_nil] at readable untied ⊢
    exact holds.close total readable untied

theorem kind_perform (table : MemTable) (operation : Operation) :
    (table.perform operation).kind = table.kind := by
  cases operation with
  | get key goesOn =>
    simp only [MemTable.perform, MemTable.get]
    cases key.userKey <;> cases table <;> rfl
  | allocate size | insert draft | contains internalKey | openCursor range | close =>
    cases table <;> rfl

theorem kind_run (table : MemTable) (operations : List Operation) :
    (table.run operations).kind = table.kind := by
  induction operations generalizing table with
  | nil => rfl
  | cons operation rest ih => exact (ih _).trans (kind_perform table operation)

/-- Tables that place entries by their user keys take in entries with a user key only. -/
theorem accepted_userKey (operations : List Operation)
    (keyed : table.kind ≠ .skipList ∧ table.kind ≠ .vector) :
    ∀ entry ∈ accepted table operations, ∃ userKey, entryUserKey entry = .ok userKey := by
  induction operations generalizing table with
  | nil => simp [accepted]
  | cons operation rest ih =>
    intro entry member
    rw [accepted, List.mem_append] at member
    rcases member with inFirst | inRest
    · cases operation with
      | insert draft =>
        cases table with
        | hashedSkipLists table => exact HashedSkipTable.insert_userKey table draft inFirst
        | hashedChains table => exact HashedChainTable.insert_userKey table draft inFirst
        | cuckoo table => exact CuckooTable.insert_userKey table draft inFirst
        | skipList table => exact absurd rfl keyed.1
        | vector table => exact absurd rfl keyed.2
      | allocate size | contains key | get key goesOn | openCursor range | close => cases inFirst
    · rw [← kind_perform table operation] at keyed
      exact ih keyed entry inRest

/-- After a run, a table holds what it held before and the entries that were accepted. -/
theorem Holds.run (holds : table.Holds order placing taken) (total : order.TotalOn keys)
    (operations : List Operation)
    (readable : ∀ entry ∈ taken ++ accepted table operations, HasKey keys entry)
    (untied : table.kind = .vector → order.Untied (taken ++ accepted table operations)) :
    (table.run operations).Holds order placing (taken ++ accepted table operations) := by
  induction operations generalizing table taken with
  | nil =>
    rw [accepted, List.append_nil]
    exact holds
  | cons operation rest ih =>
    rw [accepted, ← List.append_assoc] at readable untied ⊢
    have initial : List.Sublist (taken ++ table.added operation)
        (taken ++ table.added operation ++ accepted (table.perform operation) rest) :=
      List.sublist_append_left ..
    have step := holds.perform total operation
      (fun entry member => readable entry (initial.subset member))
      (fun isVector => (untied isVector).sublist initial)
    refine ih step readable ?_
    rw [kind_perform]
    exact untied

/-- A run from the making of a table on. -/
theorem run_holds (fresh : Fresh order table) (total : order.TotalOn keys)
    (operations : List Operation)
    (readable : ∀ entry ∈ accepted table operations, HasKey keys entry)
    (untied : table.kind = .vector → order.Untied (accepted table operations)) :
    (table.run operations).Holds order table.placing (accepted table operations) :=
  fresh.holds.run total operations readable untied

end MemTable

end WriteBuffer
