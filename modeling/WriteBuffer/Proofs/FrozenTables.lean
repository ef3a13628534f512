import Mathlib
import WriteBuffer.Proofs.WholeInserts

/-!
Tables that nothing changes any more: read-only ones, and vector tables once they are sorted
(`MemTable.Frozen`). Whatever is done to such a table, it stays as it is up to its gate, its log and the
number of handles that were handed out (`MemTable.Frozen.run`), and none of these is looked at by a read
(`MemTable.Frozen.sameReads`).
-/
namespace WriteBuffer

/-- A shelf with another number of handles that were handed out. -/
def Shelf.withReserved (reserved : Nat) (shelf : Shelf) : Shelf :=
  { shelf with arena.entries.reserved := reserved }

/-- A table with another gate, another log and another number of handles that were handed out. -/
def Table.beside {ι : Type} (gate : Gate) (log : List Event) (reserved : Nat) (table : Table ι) :
    Table ι :=
  { table with gate, log, shelf := table.shelf.withReserved reserved }

namespace VectorTable

variable {table : VectorTable}

theorem sortedHandles_of_sorted (sorted : table.index.sorted = true) :
    table.sortedHandles = (table, .ok table.index.handles) := by
  rw [sortedHandles, if_pos sorted]

theorem close_of_sorted (sorted : table.index.sorted = true) :
    close table = (Table.close .vector table, .ok ()) := by
  have same : sortedHandles (Table.close .vector table)
      = (Table.close .vector table, .ok table.index.handles) := sortedHandles_of_sorted sorted
  rw [close]
  split
  · rfl
  · simp only [same, Except.map]

theorem insert_sorted (sorted : table.index.sorted = true) (draft : Draft) :
    ∃ gate failure, insert draft table = ({ table with gate }, .error failure) ∧
      (table.isReadOnly = true → gate.readOnly = true) := by
  by_cases closed : table.isReadOnly = true
  · exact ⟨table.gate, .readOnly .vector, Table.asWriter_closed .vector _ closed, fun _ => closed⟩
  · have opened : ∀ gate : Gate, table.isReadOnly = true → gate.readOnly = true :=
      fun _ readOnly => absurd readOnly closed
    cases entered : table.gate.enter .vector with
    | error failure =>
      exact ⟨table.gate, failure, by simp only [insert, Table.asWriter, entered], opened _⟩
    | ok gate =>
      refine ⟨gate.leave, .alreadySorted, ?_, opened _⟩
      simp only [insert, Table.asWriter, entered, Table.takeIn, sorted, if_true]

end VectorTable

namespace MemTable

variable {table now after last a b : MemTable}

/-- The table with another gate, another log and another number of handles that were handed out. -/
def beside (gate : Gate) (log : List Event) (reserved : Nat) (table : MemTable) : MemTable :=
  table.modify (Table.beside gate log reserved)

theorem beside_beside (table : MemTable) (gate other : Gate) (log more : List Event)
    (reserved next : Nat) : (table.beside gate log reserved).beside other more next
      = table.beside other more next := by
  cases table <;> rfl

/-- A table is as another one was, up to its gate, its log and the number of handles that were handed out,
and is read-only if the other one was. -/
structure StaysAs (now after : MemTable) : Prop where
  rest : ∃ gate log reserved, after = now.beside gate log reserved
  isReadOnly : now.isReadOnly = true → after.isReadOnly = true

theorem StaysAs.refl (table : MemTable) : table.StaysAs table := by
  refine ⟨⟨table.gate, table.log, table.arena.entries.reserved, ?_⟩, fun closed => closed⟩
  cases table <;> rfl

theorem StaysAs.trans (first : now.StaysAs after) (second : after.StaysAs last) : now.StaysAs last := by
  obtain ⟨⟨gate, log, reserved, rfl⟩, closed⟩ := first
  obtain ⟨⟨other, more, next, rfl⟩, closedNext⟩ := second
  exact ⟨⟨other, more, next, beside_beside ..⟩, fun before => closedNext (closed before)⟩

/-- Nothing can change what a table has: it is read-only, or sorted if it is one that sorts. Such a table may
be read-only and not sorted, after a sort that broke off. -/
def Frozen : MemTable → Prop
  | vector table => table.index.sorted = true
  | table => table.isReadOnly = true

theorem Frozen.stays (frozen : now.Frozen) (stays : now.StaysAs after) : after.Frozen := by
  obtain ⟨⟨gate, log, reserved, rfl⟩, closed⟩ := stays
  cases now with
  | vector table => exact frozen
  | skipList table | hashedSkipLists table | hashedChains table | cuckoo table => exact closed frozen

theorem insert_closed (closed : table.isReadOnly = true) (draft : Draft) :
    table.insert draft = (table, .error (.readOnly table.kind)) := by
  cases table with
  | skipList table => rw [insert, SkipTable.insert, Table.asWriter_closed _ _ closed]; rfl
  | vector table => rw [insert, VectorTable.insert, Table.asWriter_closed _ _ closed]; rfl
  | hashedSkipLists table => rw [insert, HashedSkipTable.insert, Table.asWriter_closed _ _ closed]; rfl
  | hashedChains table => rw [insert, HashedChainTable.insert, Table.asWriter_closed _ _ closed]; rfl
  | cuckoo table => rw [insert, CuckooTable.insert, Table.asWriter_closed _ _ closed]; rfl

theorem Frozen.insert (frozen : table.Frozen) (draft : Draft) :
    ∃ failure, (table.insert draft).2 = .error failure ∧ table.StaysAs (table.insert draft).1 := by
  by_cases closed : table.isReadOnly = true
  · rw [insert_closed closed]
    exact ⟨_, rfl, .refl table⟩
  · cases table with
    | vector table =>
      obtain ⟨gate, failure, refused, still⟩ := VectorTable.insert_sorted frozen draft
      rw [MemTable.insert, refused]
      exact ⟨failure, rfl, ⟨gate, table.log, table.shelf.arena.entries.reserved, rfl⟩, still⟩
    | skipList table | hashedSkipLists table | hashedChains table | cuckoo table =>
      exact absurd frozen closed

theorem Frozen.openCursor (frozen : table.Frozen) (range : Range) :
    (table.openCursor range).1 = table := by
  cases table with
  | vector table =>
    rw [MemTable.openCursor, VectorTable.cursor, VectorTable.sortedHandles_of_sorted frozen]
  | skipList table | hashedSkipLists table | hashedChains table | cuckoo table => rfl

/-- A table that was closed is read-only, even if it could not be sorted. -/
theorem close_isReadOnly (table : MemTable) : table.close.1.isReadOnly = true := by
  cases table with
  | vector table =>
    simp only [close, VectorTable.close, Outcome.onState]
    split
    · rfl
    · have gate := (VectorTable.sortedHandles_same (Table.close .vector table)).2
      exact congrArg Gate.readOnly gate
  | skipList table | hashedSkipLists table | hashedChains table | cuckoo table => rfl

/-- Whatever is done to a frozen table, it stays as it is and adds nothing. -/
theorem Frozen.perform (frozen : table.Frozen) (operation : Operation) :
    table.StaysAs (table.perform operation) ∧ table.added operation = [] := by
  cases operation with
  | insert draft =>
    obtain ⟨failure, failed, stays⟩ := frozen.insert draft
    exact ⟨stays, by rw [added, failed, gained]⟩
  | allocate size =>
    refine ⟨⟨⟨table.gate, table.log, table.arena.entries.reserved + 1, ?_⟩, ?_⟩, rfl⟩
    · cases table <;> rfl
    · cases table <;> exact fun closed => closed
  | contains internalKey =>
    have opened : table.perform (.contains internalKey) = table := by
      have opened := frozen.openCursor .all
      cases table <;> exact opened
    rw [opened]
    exact ⟨.refl table, rfl⟩
  | openCursor range =>
    rw [MemTable.perform, frozen.openCursor]
    exact ⟨.refl table, rfl⟩
  | get key goesOn =>
    have opened : table.perform (.get key goesOn) = table := by
      simp only [MemTable.perform, MemTable.get]
      cases key.userKey with
      | error failure => rfl
      | ok userKey =>
        have opened := frozen.openCursor (.bucketOf userKey)
        cases table <;> exact opened
    rw [opened]
    exact ⟨.refl table, rfl⟩
  | close =>
    refine ⟨⟨?_, fun _ => close_isReadOnly table⟩, rfl⟩
    cases table with
    | vector table =>
      rw [MemTable.perform, close, VectorTable.close_of_sorted frozen]
      exact ⟨table.gate.close, _, table.shelf.arena.entries.reserved, rfl⟩
    | skipList table | hashedSkipLists table | hashedChains table | cuckoo table =>
      exact ⟨table.gate.close, _, table.shelf.arena.entries.reserved, rfl⟩

/-- Whatever is done to a frozen table in a run, it stays as it is and accepts nothing. -/
theorem Frozen.run (frozen : table.Frozen) (operations : List Operation) :
    table.StaysAs (table.run operations) ∧ accepted table operations = [] := by
  induction operations generalizing table with
  | nil => exact ⟨.refl table, rfl⟩
  | cons operation rest ih =>
    obtain ⟨stays, added⟩ := frozen.perform operation
    obtain ⟨later, acceptedLater⟩ := ih (frozen.stays stays)
    exact ⟨stays.trans later, by rw [accepted, added, acceptedLater, List.nil_append]⟩

/-- Two tables have the same entries, and all reads and all cursors answer alike. -/
structure SameReads (a b : MemTable) : Prop where
  entries : b.arena.get = a.arena.get
  size : b.arena.size = a.arena.size
  contains : ∀ internalKey, (b.contains internalKey).2 = (a.contains internalKey).2
  get : ∀ key goesOn, (b.get key goesOn).2 = (a.get key goesOn).2
  scan : b.scan.2 = a.scan.2
  scanBackward : b.scanBackward.2 = a.scanBackward.2
  openCursor : ∀ range, (b.openCursor range).2 = (a.openCursor range).2
  moves : b.moves = a.moves

/-- Handing out a cursor does not change how cursors move, even where it sorts. -/
theorem moves_openCursor (table : MemTable) (range : Range) :
    (table.openCursor range).1.moves = table.moves := by
  cases table with
  | vector table =>
    simp only [openCursor, VectorTable.cursor, moves, shelf, read,
      (VectorTable.sortedHandles_same table).1]
  | skipList table | hashedSkipLists table | hashedChains table | cuckoo table => rfl

theorem scan_eq (table : MemTable) : table.scan.2 = (do
    (table.moves.walkForward (← table.moves.first (← (table.openCursor .all).2))).2) := by
  simp only [scan, moves_openCursor]

theorem scanBackward_eq (table : MemTable) : table.scanBackward.2 = (do
    (table.moves.walkBackward (← table.moves.last (← (table.openCursor .all).2))).2) := by
  simp only [scanBackward, moves_openCursor]

theorem get_eq (ordered : table.kind ≠ .cuckoo) (key : LookupKey) (goesOn : List Bytes → Bool) :
    (table.get key goesOn).2 = (do
      let userKey ← key.userKey
      table.moves.visitFrom (← (table.openCursor (.bucketOf userKey)).2) key.internalKey goesOn) := by
  rw [get]
  cases key.userKey with
  | error failure => rfl
  | ok userKey =>
    have moves := moves_openCursor table (.bucketOf userKey)
    cases table with
    | cuckoo table => exact absurd rfl ordered
    | skipList table | vector table | hashedSkipLists table | hashedChains table =>
      simp only [moves]
      rfl

/-- Tables whose cursors are the same give the same answers to the other questions. -/
theorem SameReads.of_cursors (entries : b.arena.get = a.arena.get) (size : b.arena.size = a.arena.size)
    (contains : ∀ internalKey, (b.contains internalKey).2 = (a.contains internalKey).2)
    (get : a.kind = .cuckoo → ∀ key goesOn, (b.get key goesOn).2 = (a.get key goesOn).2)
    (kind : b.kind = a.kind) (openCursor : ∀ range, (b.openCursor range).2 = (a.openCursor range).2)
    (moves : b.moves = a.moves) : a.SameReads b where
  entries := entries
  size := size
  contains := contains
  get key goesOn := by
    by_cases slots : a.kind = .cuckoo
    · exact get slots key goesOn
    · rw [get_eq slots, get_eq (kind ▸ slots), moves]
      simp only [openCursor]
  scan := by rw [scan_eq, scan_eq, moves, openCursor]
  scanBackward := by rw [scanBackward_eq, scanBackward_eq, moves, openCursor]
  openCursor := openCursor
  moves := moves

/-- Vector tables with the same shelf and the same handles in order give the same answers. -/
theorem sameReads_vector {a b : VectorTable} (handles : b.sortedHandles.2 = a.sortedHandles.2)
    {reserved : Nat} (shelf : b.shelf = a.shelf.withReserved reserved) :
    (vector a).SameReads (vector b) := by
  -- What is read of a shelf are entries and their order: the number of handles does not matter by `rfl`.
  refine .of_cursors ?_ ?_ (fun internalKey => ?_) nofun rfl (fun range => ?_) ?_
  · simp only [arena, MemTable.shelf, read, shelf]
    rfl
  · simp only [arena, MemTable.shelf, read, shelf]
    rfl
  · simp only [MemTable.contains, Outcome.onState, VectorTable.contains, handles,
      (VectorTable.sortedHandles_same a).1, (VectorTable.sortedHandles_same b).1, shelf]
    rfl
  · simp only [MemTable.openCursor, VectorTable.cursor, handles]
  · simp only [MemTable.moves, MemTable.shelf, read, shelf]
    rfl

theorem sameReads_cuckoo (table : CuckooTable) (gate : Gate) (log : List Event) (reserved : Nat) :
    (cuckoo table).SameReads (cuckoo (table.beside gate log reserved)) := by
  have same : ∀ test among, CuckooTable.findSlot (table.beside gate log reserved) test among
      = table.findSlot test among := CuckooTable.findSlot_congr rfl
  refine .of_cursors rfl rfl (fun internalKey => ?_) (fun _ key goesOn => ?_) rfl (fun _ => rfl) rfl
  · simp only [MemTable.contains, CuckooTable.contains, same]
    rfl
  · rw [MemTable.get, MemTable.get]
    cases key.userKey with
    | error failure => rfl
    | ok userKey =>
      simp only [CuckooTable.get, CuckooTable.findUserKey, same]
      rfl

/-- A table that stays as a frozen one was gives the same answers. -/
theorem Frozen.sameReads (frozen : now.Frozen) (stays : now.StaysAs after) : now.SameReads after := by
  obtain ⟨⟨gate, log, reserved, rfl⟩, _⟩ := stays
  cases now with
  | vector table =>
    have sorted : (table.beside gate log reserved).index.sorted = true := frozen
    refine sameReads_vector (b := table.beside gate log reserved) ?_ rfl
    rw [VectorTable.sortedHandles_of_sorted frozen, VectorTable.sortedHandles_of_sorted sorted]
    rfl
  | cuckoo table => exact sameReads_cuckoo table gate log reserved
  | skipList table | hashedSkipLists table | hashedChains table =>
    exact .of_cursors rfl rfl (fun _ => rfl) nofun rfl (fun _ => rfl) rfl

/-- A run adds nothing to a table and changes nothing that can be read in it, and after it nothing can be
added. -/
structure NothingChanges (now : MemTable) (later : List Operation) : Prop where
  accepted : accepted now later = []
  stays : now.StaysAs (now.run later)
  sameReads : now.SameReads (now.run later)
  insert : ∀ draft, ∃ failure, ((now.run later).insert draft).2 = .error failure

theorem Frozen.nothingChanges (frozen : now.Frozen) (later : List Operation) :
    now.NothingChanges later := by
  obtain ⟨stays, accepted⟩ := frozen.run later
  refine ⟨accepted, stays, frozen.sameReads stays, fun draft => ?_⟩
  obtain ⟨failure, failed, _⟩ := (frozen.stays stays).insert draft
  exact ⟨failure, failed⟩

end MemTable

end WriteBuffer
