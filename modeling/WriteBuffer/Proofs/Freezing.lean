import Mathlib
import WriteBuffer.Proofs.FrozenTables
import WriteBuffer.Proofs.VectorReads
import WriteBuffer.Proofs.WellFormed

/-!
When tables freeze. A vector table that takes in readable entries is sorted by each operation that asks
for its handles in order, so it is never read-only without being sorted (`VectorTable.Orderly.run`), and a
cuckoo table is read-only as soon as it has a backup (`MemTable.backup_readOnly`). Hence a table that is
read-only, or a vector table that was read, is frozen: from then on it stays as it is
(`MemTable.frozen_once_readOnly`).
-/
namespace WriteBuffer

variable {keys : Bytes → Prop}

namespace VectorTable

variable {table : VectorTable}

/-- All handles of a table name entries with keys of a class, and if it is read-only, it is sorted. -/
structure Orderly (table : VectorTable) (keys : Bytes → Prop) : Prop where
  readable : ∀ handle ∈ table.index.handles, table.shelf.Readable keys handle
  closed : table.isReadOnly = true → table.index.sorted = true

/-- Handles of readable entries can be put in order, whether or not some of them tie. -/
theorem sortedHandles_ok (readable : ∀ handle ∈ table.index.handles, table.shelf.Readable keys handle)
    (total : table.shelf.order.TotalOn keys) :
    table.sortedHandles.1.index.handles.Perm table.index.handles ∧
      table.sortedHandles.1.index.sorted = true ∧
      table.sortedHandles.2 = .ok table.sortedHandles.1.index.handles := by
  rcases sortedHandles_results table with ⟨failure, _, broken, _⟩ | ⟨_, results⟩
  · have answers : ∀ a ∈ table.index.handles, ∀ b ∈ table.index.handles,
        ∃ ordering, table.shelf.compareHandles a b = .ok ordering := by
      intro a memberA b memberB
      obtain ⟨entryA, readA, keyA, cutA, heldA⟩ := readable a memberA
      obtain ⟨entryB, readB, keyB, cutB, heldB⟩ := readable b memberB
      rw [Shelf.compareHandles_eq readA readB, KeyOrder.compareEntries_eq _ cutB,
        KeyOrder.compareEntryKey_eq _ cutA]
      exact total.answers heldA heldB
    obtain ⟨handles, done⟩ := sortStable_ok answers
    cases done.symm.trans broken
  · exact results

/-- An operation that asks for readable handles in order sorts them. -/
theorem Orderly.perform_asking (orderly : table.Orderly keys) (total : table.shelf.order.TotalOn keys)
    {operation : Operation} (asks : table.AsksForOrder operation) :
    ∃ after, (MemTable.vector table).perform operation = .vector after ∧ after.shelf = table.shelf ∧
      after.index.sorted = true ∧ after.Orderly keys := by
  obtain ⟨entered, shelf, index, _, performed, _⟩ := VectorTable.perform_asking asks
  have readable : ∀ handle ∈ entered.index.handles, entered.shelf.Readable keys handle := by
    rw [shelf, index]
    exact orderly.readable
  obtain ⟨perm, sorted, _⟩ := sortedHandles_ok readable (shelf ▸ total)
  have onShelf := (sortedHandles_same entered).1
  refine ⟨_, performed, onShelf.trans shelf, sorted, ?_, fun _ => sorted⟩
  intro handle member
  rw [onShelf]
  exact readable handle (perm.mem_iff.mp member)

/-- Any operation that adds only readable entries keeps a table orderly. -/
theorem Orderly.perform (orderly : table.Orderly keys) (total : table.shelf.order.TotalOn keys)
    (operation : Operation)
    (hasKey : ∀ entry ∈ (MemTable.vector table).added operation, HasKey keys entry) :
    ∃ after, (MemTable.vector table).perform operation = .vector after ∧
      after.shelf.order = table.shelf.order ∧ after.Orderly keys := by
  by_cases asks : table.AsksForOrder operation
  · obtain ⟨after, performed, shelf, _, still⟩ := orderly.perform_asking total asks
    exact ⟨after, performed, by rw [shelf], still⟩
  · obtain ⟨after, performed, ⟨shelf, more, reads, perm⟩, sorted, openOrNot⟩ := perform_unasking asks
    refine ⟨after, performed, shelf.order, ?_, ?_⟩
    · intro handle member
      rcases List.mem_append.mp (perm.mem_iff.mp member) with before | now
      · obtain ⟨entry, read, held⟩ := orderly.readable handle before
        exact ⟨entry, shelf.keeps read, held⟩
      · obtain ⟨entry, inAdded, read⟩ := reads.exists_entry now
        exact ⟨entry, read, hasKey entry inAdded⟩
    · intro closed
      exact sorted (orderly.closed (openOrNot ▸ closed))

/-- A run that accepts only readable entries keeps a table orderly. -/
theorem Orderly.run (orderly : table.Orderly keys) (total : table.shelf.order.TotalOn keys)
    (operations : List Operation)
    (hasKey : ∀ entry ∈ MemTable.accepted (.vector table) operations, HasKey keys entry) :
    ∃ after, (MemTable.vector table).run operations = .vector after ∧
      after.shelf.order = table.shelf.order ∧ after.Orderly keys := by
  induction operations generalizing table with
  | nil => exact ⟨table, rfl, rfl, orderly⟩
  | cons operation rest ih =>
    rw [MemTable.accepted] at hasKey
    obtain ⟨next, performed, order, still⟩ := orderly.perform total operation
      fun entry member => hasKey entry (List.mem_append_left _ member)
    rw [performed] at hasKey
    obtain ⟨after, ran, sameOrder, last⟩ := ih still (order ▸ total)
      fun entry member => hasKey entry (List.mem_append_right _ member)
    refine ⟨after, ?_, sameOrder.trans order, last⟩
    rw [MemTable.run, List.foldl_cons, performed]
    exact ran

theorem orderly_create {shelf : Shelf} {count : Nat} (made : create shelf count = .ok table) :
    table.Orderly keys := by
  obtain rfl := create_ok made
  constructor
  · intro handle member
    cases member
  · intro closed
    cases closed

end VectorTable

/-- An insert into a table without a backup gives it one only if it makes the table read-only. -/
theorem CuckooTable.insert_backup {table : CuckooTable} (draft : Draft)
    (before : table.index.backup = none) (spilled : (insert draft table).1.index.backup ≠ none) :
    (insert draft table).1.isReadOnly = true := by
  rcases Table.asWriter_cases .cuckoo (Table.takeIn draft (refuseRepeated · draft.bytes)
      fun _ table => house table draft.handle) table with
    ⟨_, _, kept⟩ | ⟨gate, _, ⟨_, index, _⟩, left, _⟩
  · rw [insert, kept] at spilled
    exact absurd before spilled
  · rw [insert, ← index] at spilled
    rw [insert, Table.isReadOnly, left]
    rcases Table.takeIn_cases draft (refuseRepeated · draft.bytes)
        (fun _ table => house table draft.handle) { table with gate } with
      ⟨failure, refused⟩ | ⟨_, published, _, stored, ⟨failure, _, failed⟩ | ⟨changed, done, taken⟩⟩
    · rw [refused] at spilled
      exact absurd before spilled
    · obtain ⟨arena, _, rfl⟩ := Table.publish_ok stored
      rw [failed] at spilled
      exact absurd before spilled
    · obtain ⟨arena, _, rfl⟩ := Table.publish_ok stored
      rw [taken] at spilled ⊢
      obtain ⟨settled, found, done⟩ := bind_eq_ok.mp done
      cases settled with
      | some settled =>
        obtain ⟨slots, longestChain, rfl, _⟩ := settle_changes found
        obtain rfl := Except.ok.inj done
        exact absurd before spilled
      | none =>
        obtain ⟨backup, _, done⟩ := bind_eq_ok.mp done
        obtain rfl := Except.ok.inj done
        rfl

/-- Whether an operation asks a table something. -/
def Operation.IsRead : Operation → Prop
  | .contains _ | .get .. | .openCursor _ => True
  | .allocate _ | .insert _ | .close => False

/-- A read that is answered has asked for the handles in order. -/
theorem VectorTable.asks_of_answered {table : VectorTable} {reading : Operation}
    (isRead : reading.IsRead) (answered : (MemTable.vector table).outcome reading = .ok ()) :
    table.AsksForOrder reading := by
  cases reading with
  | allocate size | insert draft | close => exact isRead.elim
  | contains internalKey | openCursor range => trivial
  | get key goesOn =>
    cases cut : key.userKey with
    | ok userKey => exact ⟨userKey, cut⟩
    | error failure =>
      rw [MemTable.outcome, MemTable.get, cut] at answered
      cases answered

namespace MemTable

variable {table : MemTable}

/-- A cuckoo table with an entry in its backup. -/
def Overflowed : MemTable → Prop
  | cuckoo table => table.index.backup ≠ none
  | _ => False

theorem Overflowed.kind_eq (overflowed : table.Overflowed) : table.kind = .cuckoo := by
  cases table with
  | cuckoo table => rfl
  | skipList table | vector table | hashedSkipLists table | hashedChains table => exact overflowed.elim

/-- An operation that makes a table overflow makes it read-only. -/
theorem Overflowed.perform (closed : table.Overflowed → table.isReadOnly = true)
    {operation : Operation} (overflowed : (table.perform operation).Overflowed) :
    (table.perform operation).isReadOnly = true := by
  have slots : table.kind = .cuckoo := (kind_perform table operation).symm.trans overflowed.kind_eq
  cases table with
  | skipList table | vector table | hashedSkipLists table | hashedChains table => cases slots
  | cuckoo table =>
    by_cases readOnly : table.isReadOnly = true
    · have frozen : (cuckoo table).Frozen := readOnly
      exact (frozen.perform operation).1.isReadOnly readOnly
    · have before : table.index.backup = none := by
        by_contra spilled
        exact readOnly (closed spilled)
      cases operation with
      | insert draft => exact CuckooTable.insert_backup draft before overflowed
      | allocate size | contains internalKey | openCursor range | close => exact absurd before overflowed
      | get key goesOn =>
        simp only [MemTable.perform, MemTable.get] at overflowed
        cases cut : key.userKey <;> rw [cut] at overflowed <;> exact absurd before overflowed

/-- A table that overflowed in a run is read-only. -/
theorem Overflowed.run (closed : table.Overflowed → table.isReadOnly = true) (operations : List Operation)
    (overflowed : (table.run operations).Overflowed) : (table.run operations).isReadOnly = true := by
  induction operations generalizing table with
  | nil => exact closed overflowed
  | cons operation rest ih => exact ih (fun now => now.perform closed) overflowed

theorem Made.not_overflowed (made : Made table) : ¬ table.Overflowed := by
  cases made with
  | ordered fresh =>
    cases fresh with
    | skipList heights ordered | vector ordered made | hashedSkipLists ordered made
      | hashedChains ordered made => exact id
  | cuckoo made =>
    obtain rfl := CuckooTable.create_ok made
    exact fun spilled => spilled rfl

section Runs

variable {operations : List Operation}
  (total : table.kind = .vector → table.shelf.order.TotalOn IsInternalKey)
  (wellFormed : table.kind = .vector → ∀ entry ∈ accepted table operations, WellFormed entry)
include total wellFormed

/-- A vector table is orderly after any run over well-formed entries. -/
theorem Made.orderly (made : Made table) (isVector : (table.run operations).kind = .vector) :
    ∃ now : VectorTable, table.run operations = vector now ∧
      now.shelf.order.TotalOn IsInternalKey ∧ now.Orderly IsInternalKey := by
  rw [kind_run] at isVector
  cases made with
  | cuckoo made => cases isVector
  | ordered initial =>
    cases initial with
    | skipList heights ordered | hashedSkipLists ordered made | hashedChains ordered made =>
      cases isVector
    | vector ordered made =>
      obtain ⟨now, ran, order, orderly⟩ := (VectorTable.orderly_create made).run (total rfl) operations
        fun entry member => (wellFormed rfl entry member).isInternalKey
      exact ⟨now, ran, order ▸ total rfl, orderly⟩

/-- A table that is read-only after a run over well-formed entries is frozen, also if it sorts. -/
theorem Made.frozen (made : Made table) (closed : (table.run operations).isReadOnly = true) :
    (table.run operations).Frozen := by
  by_cases isVector : (table.run operations).kind = .vector
  · obtain ⟨now, ran, _, orderly⟩ := made.orderly total wellFormed isVector
    rw [ran] at closed ⊢
    exact orderly.closed closed
  · cases ran : table.run operations with
    | vector now =>
      rw [ran] at isVector
      exact absurd rfl isVector
    | skipList now | hashedSkipLists now | hashedChains now | cuckoo now =>
      rw [ran] at closed
      exact closed

end Runs

/-- A read that is answered leaves a vector table sorted and changes nothing else that can be told. -/
theorem frozen_of_answered {now : VectorTable} (orderly : now.Orderly IsInternalKey)
    (total : now.shelf.order.TotalOn IsInternalKey) {reading : Operation} (isRead : reading.IsRead)
    (answered : (vector now).outcome reading = .ok ()) :
    ((vector now).perform reading).isReadOnly = (vector now).isReadOnly ∧
      (vector now).SameReads ((vector now).perform reading) ∧ ((vector now).perform reading).Frozen := by
  have notClose : reading ≠ .close := by
    rintro rfl
    exact isRead
  obtain ⟨entered, _, _, same, performed, _⟩ :=
    VectorTable.perform_asking (VectorTable.asks_of_answered isRead answered)
  obtain rfl := same notClose
  obtain ⟨_, sorted, handles⟩ := VectorTable.sortedHandles_ok orderly.readable total
  obtain ⟨shelf, gate⟩ := VectorTable.sortedHandles_same entered
  rw [performed]
  refine ⟨congrArg Gate.readOnly gate, sameReads_vector ?_ shelf, sorted⟩
  rw [VectorTable.sortedHandles_of_sorted sorted, handles]

/-- After a run of a table of any kind, over well-formed entries and for a total order where it sorts, closing
it makes it read-only, and so has the overflow of a cuckoo table. Once it is read-only it stays so and
refuses every insert for that reason, and whatever is done changes neither what it has, its index included,
nor any answer. A vector table changes no more from the first read on that is answered: that read leaves it
open or closed as it was and its answers as they were, and every later one finds the same order. -/
theorem frozen_once_readOnly (made : Made table)
    (total : table.kind = .vector → table.shelf.order.TotalOn IsInternalKey)
    {operations : List Operation}
    (wellFormed : table.kind = .vector → ∀ entry ∈ accepted table operations, WellFormed entry) :
    let now := table.run operations
    now.close.1.isReadOnly = true ∧ (now.Overflowed → now.isReadOnly = true) ∧
      (now.isReadOnly = true → ∀ later, now.NothingChanges later ∧
        (now.run later).isReadOnly = true ∧
        ∀ draft, (now.run later).insert draft = (now.run later, .error (.readOnly now.kind))) ∧
      (now.kind = .vector → ∀ reading : Operation, reading.IsRead → now.outcome reading = .ok () →
        (now.perform reading).isReadOnly = now.isReadOnly ∧ now.SameReads (now.perform reading) ∧
        ∀ later, (now.perform reading).NothingChanges later) := by
  intro now
  refine ⟨close_isReadOnly now, ?_, ?_, ?_⟩
  · exact fun overflowed => overflowed.run (fun before => absurd before made.not_overflowed)
  · intro closed later
    have frozen : now.Frozen := made.frozen total wellFormed closed
    have stillClosed := (frozen.run later).1.isReadOnly closed
    refine ⟨frozen.nothingChanges later, stillClosed, fun draft => ?_⟩
    rw [insert_closed stillClosed, kind_run]
  · intro isVector reading isRead answered
    obtain ⟨sorting, same, total, orderly⟩ := made.orderly total wellFormed isVector
    rw [show now = vector sorting from same] at answered ⊢
    obtain ⟨openOrNot, sameReads, frozen⟩ := frozen_of_answered orderly total isRead answered
    exact ⟨openOrNot, sameReads, frozen.nothingChanges⟩

/-- A vector table keeps the order of its first cursor, and does not take in a third entry. -/
theorem frozen_once_read :
    let table := vector { shelf := { order := .versioned, arena := { id := 0 } }, index := {} }
    let a : Bytes := [9, 0, 0, 0, 97, 1, 1, 0, 0, 0, 0, 0, 0, 0, 0, 0, 0]
    let b : Bytes := [9, 0, 0, 0, 98, 1, 1, 0, 0, 0, 0, 0, 0, 0, 0, 0, 0]
    let operations : List Operation := [.insert ⟨0, ⟨0⟩, b⟩, .insert ⟨0, ⟨1⟩, a⟩]
    let now := table.run operations
    let first := now.perform (.openCursor .all)
    accepted table operations = [b, a] ∧ now.outcome (.openCursor .all) = .ok () ∧
      first.isReadOnly = now.isReadOnly ∧ now.SameReads first ∧
      first.NothingChanges [.insert ⟨0, ⟨2⟩, a⟩, .close] ∧ first.scan.2 = .ok [a, b] := by
  intro table a b operations now first
  have both : accepted table operations = [b, a] := by decide +kernel
  have made : Made table := .ordered (@Fresh.vector _ _ _ 0 rfl rfl)
  have total : KeyOrder.versioned.TotalOn IsInternalKey :=
    KeyOrder.versioned_totalOn.mono fun _ => hasTag_of_isInternalKey
  have wellFormed : ∀ entry ∈ accepted table operations, WellFormed entry := by
    rw [both]
    intro entry member
    rcases List.mem_pair.mp member with rfl | rfl
    · exact ⟨⟨[98], 1, .put, []⟩, by decide +kernel⟩
    · exact ⟨⟨[97], 1, .put, []⟩, by decide +kernel⟩
  have answered : now.outcome (.openCursor .all) = .ok () := by decide +kernel
  obtain ⟨_, _, _, reads⟩ := frozen_once_readOnly made (fun _ => total) fun _ => wellFormed
  obtain ⟨openOrNot, sameReads, nothing⟩ := reads rfl (.openCursor .all) trivial answered
  exact ⟨both, answered, openOrNot, sameReads, nothing _, by decide +kernel⟩

end MemTable

end WriteBuffer
