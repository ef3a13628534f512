import Mathlib
import WriteBuffer.Proofs.Runs
import WriteBuffer.Proofs.Sorting
import WriteBuffer.Proofs.VersionedOrder

/-!
What reads make of the handles of a vector table that took in whatever bytes it was given. A sort breaks
off exactly at two or more handles of which one names no readable key
(`VectorTable.sortedHandles_cases`), and then the table is left without handles; every other operation
only rearranges them and adds that of an insert (`VectorTable.perform_cases`). Hence a run loses what was
accepted before its last broken sort and nothing else (`VectorTable.loses_unsortable_handles`).
-/
namespace WriteBuffer

variable {order : KeyOrder} {keys : Bytes → Prop}

/-- An order that answers the questions about the keys of a class and no others. -/
def KeyOrder.AnswersOnly (order : KeyOrder) (keys : Bytes → Prop) : Prop :=
  ∀ a b, (∃ ordering, order.compareKeys a b = .ok ordering) ↔ keys a ∧ keys b

theorem KeyOrder.versioned_answersOnly : versioned.AnswersOnly HasTag := by
  intro a b
  constructor
  · rintro ⟨ordering, answer⟩
    obtain ⟨userA, cutA, answer⟩ := bind_eq_ok.mp answer
    obtain ⟨userB, cutB, _⟩ := bind_eq_ok.mp answer
    exact ⟨hasTag_of_userKeyOf cutA, hasTag_of_userKeyOf cutB⟩
  · rintro ⟨taggedA, taggedB⟩
    exact KeyOrder.versioned_totalOn.answers taggedA taggedB

namespace Shelf

variable {shelf : Shelf} {handles : List Handle}

theorem compareHandles_ok_iff (answersOnly : shelf.order.AnswersOnly keys) (a b : Handle) :
    (∃ ordering, shelf.compareHandles a b = .ok ordering)
      ↔ shelf.Readable keys a ∧ shelf.Readable keys b := by
  constructor
  · rintro ⟨ordering, answer⟩
    obtain ⟨entryB, readB, answer⟩ := bind_eq_ok.mp answer
    obtain ⟨entryA, readA, answer⟩ := bind_eq_ok.mp answer
    obtain ⟨keyA, cutA, answer⟩ := bind_eq_ok.mp answer
    obtain ⟨keyB, cutB, answer⟩ := bind_eq_ok.mp answer
    obtain ⟨heldA, heldB⟩ := (answersOnly keyA keyB).mp ⟨ordering, answer⟩
    exact ⟨⟨entryA, readA, keyA, cutA, heldA⟩, ⟨entryB, readB, keyB, cutB, heldB⟩⟩
  · rintro ⟨⟨entryA, readA, keyA, cutA, heldA⟩, ⟨entryB, readB, keyB, cutB, heldB⟩⟩
    obtain ⟨ordering, answer⟩ := (answersOnly keyA keyB).mpr ⟨heldA, heldB⟩
    refine ⟨ordering, ?_⟩
    rw [compareHandles_eq readA readB, KeyOrder.compareEntries_eq _ cutB,
      KeyOrder.compareEntryKey_eq _ cutA, answer]

end Shelf

namespace MemTable

/-- Whether an operation succeeds, its answer apart. -/
def outcome (table : MemTable) : Operation → Except Failure Unit
  | .allocate size => (table.allocate size).2.map fun _ => ()
  | .insert draft => (table.insert draft).2
  | .contains internalKey => (table.contains internalKey).2.map fun _ => ()
  | .get key goesOn => (table.get key goesOn).2.map fun _ => ()
  | .openCursor range => (table.openCursor range).2.map fun _ => ()
  | .close => table.close.2

end MemTable

namespace VectorTable

open MemTable (accepted Fresh)

variable {table after : VectorTable} {lost kept : List Bytes}

/-- Handles that no sort can put in order, and that were not sorted before: two or more, of which one
names no entry with a key of the class. -/
def Unsortable (table : VectorTable) (keys : Bytes → Prop) : Prop :=
  table.index.sorted = false ∧ 2 ≤ table.index.handles.length ∧
    ∃ handle ∈ table.index.handles, ¬ table.shelf.Readable keys handle

/-- A sort that breaks off takes all handles out, and any other one rearranges them. -/
theorem sortedHandles_results (table : VectorTable) :
    (∃ failure, table.index.sorted = false ∧
      sortStable table.shelf.compareHandles table.index.handles = .error failure ∧
      table.sortedHandles.1.index = {} ∧ table.sortedHandles.2 = .error failure) ∨
    ((table.index.sorted = true ∨ ∃ handles,
        sortStable table.shelf.compareHandles table.index.handles = .ok handles) ∧
      table.sortedHandles.1.index.handles.Perm table.index.handles ∧
      table.sortedHandles.1.index.sorted = true ∧
      table.sortedHandles.2 = .ok table.sortedHandles.1.index.handles) := by
  by_cases sorted : table.index.sorted
  · rw [sortedHandles, if_pos sorted]
    exact .inr ⟨.inl sorted, .refl _, sorted, rfl⟩
  · rw [sortedHandles, if_neg sorted]
    cases done : sortStable table.shelf.compareHandles table.index.handles with
    | error failure => exact .inl ⟨failure, Bool.eq_false_of_not_eq_true sorted, rfl, rfl, rfl⟩
    | ok handles => exact .inr ⟨.inr ⟨handles, rfl⟩, sortStable_perm done, rfl, rfl⟩

/-- A sort breaks off exactly at handles that cannot be sorted. -/
theorem sortedHandles_cases (answersOnly : table.shelf.order.AnswersOnly keys) :
    (table.Unsortable keys ∧ table.sortedHandles.1.index = {} ∧
      ∃ failure, table.sortedHandles.2 = .error failure) ∨
    (¬ table.Unsortable keys ∧ table.sortedHandles.1.index.handles.Perm table.index.handles) := by
  have comparable := table.shelf.compareHandles_ok_iff answersOnly
  rcases sortedHandles_results table with
    ⟨failure, unsorted, broken, emptied, failed⟩ | ⟨whole, perm, _⟩
  · refine .inl ⟨⟨unsorted, ?_, ?_⟩, emptied, failure, failed⟩
    · by_contra few
      cases (sortStable_few (by omega)).symm.trans broken
    · by_contra! readable
      obtain ⟨handles, done⟩ := sortStable_ok fun a memberA b memberB =>
        (comparable a b).mpr ⟨readable a memberA, readable b memberB⟩
      cases done.symm.trans broken
  · refine .inr ⟨?_, perm⟩
    rintro ⟨unsorted, several, handle, member, unreadable⟩
    rcases whole with sorted | ⟨handles, done⟩
    · cases unsorted.symm.trans sorted
    · have readable := sortStable_comparable
        (fun answer => (comparable _ _).mp ⟨_, answer⟩) done several
      exact unreadable (readable handle member)

/-- Whether an operation asks for the handles in order. -/
def AsksForOrder (table : VectorTable) : Operation → Prop
  | .contains _ | .openCursor _ => True
  | .get key _ => ∃ userKey, key.userKey = .ok userKey
  | .close => table.isReadOnly = false
  | .allocate _ | .insert _ => False

/-- Whether an operation asks for the order of handles that cannot be sorted. -/
def Breaks (table : VectorTable) (keys : Bytes → Prop) (operation : Operation) : Prop :=
  table.AsksForOrder operation ∧ table.Unsortable keys

/-- An operation that asks for the handles in order does so of the table, which is closed first if that is
the operation, and fails if they cannot be had. -/
theorem perform_asking {operation : Operation} (asks : table.AsksForOrder operation) :
    ∃ entered : VectorTable, entered.shelf = table.shelf ∧ entered.index = table.index ∧
      (operation ≠ .close → entered = table) ∧
      (MemTable.vector table).perform operation = .vector entered.sortedHandles.1 ∧
      (MemTable.vector table).added operation = [] ∧
      ∀ failure, entered.sortedHandles.2 = .error failure →
        (MemTable.vector table).outcome operation = .error failure := by
  cases operation with
  | allocate size | insert draft => exact asks.elim
  | contains internalKey =>
    refine ⟨table, rfl, rfl, fun _ => rfl, rfl, rfl, fun failure broken => ?_⟩
    simp only [MemTable.outcome, MemTable.contains, Outcome.onState, contains, broken]
    rfl
  | openCursor range =>
    refine ⟨table, rfl, rfl, fun _ => rfl, rfl, rfl, fun failure broken => ?_⟩
    simp only [MemTable.outcome, MemTable.openCursor, cursor, broken]
    rfl
  | get key goesOn =>
    obtain ⟨userKey, cut⟩ := asks
    refine ⟨table, rfl, rfl, fun _ => rfl, ?_, rfl, fun failure broken => ?_⟩
    · simp only [MemTable.perform, MemTable.get, cut, MemTable.openCursor, cursor]
    · simp only [MemTable.outcome, MemTable.get, cut, MemTable.openCursor, cursor, broken]
      rfl
  | close =>
    have opened : table.isReadOnly = false := asks
    refine ⟨Table.close .vector table, rfl, rfl, fun other => absurd rfl other, ?_, rfl,
      fun failure broken => ?_⟩
    · simp only [MemTable.perform, MemTable.close, close, opened]
      rfl
    · simp only [MemTable.outcome, MemTable.close, close, opened, Outcome.onState, broken]
      rfl

/-- A table is left without handles, and its arena as it was. -/
structure LeftEmpty (table after : VectorTable) : Prop where
  handles : after.index.handles = []
  shelf : after.shelf = table.shelf

/-- A table has all handles that it had, in some order, and handles of the given entries. -/
structure KeepsHandles (table after : VectorTable) (entries : List Bytes) : Prop where
  shelf : table.shelf.Extends after.shelf
  handles : ∃ more, after.shelf.Reads more entries ∧
    after.index.handles.Perm (table.index.handles ++ more)

theorem KeepsHandles.of_perm (shelf : table.shelf.Extends after.shelf)
    (perm : after.index.handles.Perm table.index.handles) : table.KeepsHandles after [] :=
  ⟨shelf, [], rfl, by rwa [List.append_nil]⟩

/-- An operation that does not ask for the handles in order keeps them, sorted if they were, and a table
read-only or open as it was. -/
theorem perform_unasking {operation : Operation} (unasked : ¬ table.AsksForOrder operation) :
    ∃ after, (MemTable.vector table).perform operation = .vector after ∧
      table.KeepsHandles after ((MemTable.vector table).added operation) ∧
      (table.index.sorted = true → after.index.sorted = true) ∧ after.isReadOnly = table.isReadOnly := by
  cases operation with
  | contains internalKey | openCursor range => exact absurd trivial unasked
  | allocate size =>
    have shelf : table.shelf.Extends
        { table.shelf with arena := (table.shelf.arena.allocate size).1 } :=
      ⟨rfl, Arena.keeps_allocate table.shelf.arena size⟩
    exact ⟨_, rfl, .of_perm shelf (.refl _), fun sorted => sorted, rfl⟩
  | insert draft =>
    have open_or_not := insert_isReadOnly draft table
    simp only [MemTable.added, MemTable.insert, Outcome.onState]
    rcases insert_cases draft table with
      ⟨failure, failed, order, keeps, index⟩ | ⟨inserted, unsorted, index, shelf, read⟩
    · refine ⟨(insert draft table).1, rfl, ?_, by rw [index]; exact fun sorted => sorted, open_or_not⟩
      rw [failed]
      exact .of_perm ⟨order, keeps⟩ (by rw [index])
    · refine ⟨(insert draft table).1, rfl, ⟨shelf, [draft.handle], ?_, ?_⟩, ?_, open_or_not⟩
      · rw [inserted, Shelf.Reads, List.map_singleton, read]
        rfl
      · rw [index]
        exact .refl _
      · intro sorted
        cases unsorted.symm.trans sorted
  | get key goesOn =>
    cases cut : key.userKey with
    | error failure =>
      exact ⟨table, by simp only [MemTable.perform, MemTable.get, cut], .of_perm (.refl _) (.refl _),
        fun sorted => sorted, rfl⟩
    | ok userKey => exact absurd ⟨userKey, cut⟩ unasked
  | close =>
    have closed : table.isReadOnly = true := Bool.eq_true_of_not_eq_false unasked
    refine ⟨Table.close .vector table, ?_, .of_perm (.refl _) (.refl _), fun sorted => sorted,
      closed.symm⟩
    simp only [MemTable.perform, MemTable.close, close, closed]
    rfl

/-- An operation leaves a table without handles exactly if it asks for the order of handles that cannot be
sorted. -/
theorem perform_cases (answersOnly : table.shelf.order.AnswersOnly keys) (operation : Operation) :
    ∃ after, (MemTable.vector table).perform operation = .vector after ∧
      ((table.Breaks keys operation ∧ table.LeftEmpty after ∧
          (MemTable.vector table).added operation = [] ∧
          ∃ failure, (MemTable.vector table).outcome operation = .error failure) ∨
        (¬ table.Breaks keys operation ∧
          table.KeepsHandles after ((MemTable.vector table).added operation))) := by
  by_cases asks : table.AsksForOrder operation
  · obtain ⟨entered, shelf, index, _, performed, added, fails⟩ := perform_asking asks
    have same : entered.Unsortable keys ↔ table.Unsortable keys := by
      rw [Unsortable, Unsortable, shelf, index]
    have onShelf := (sortedHandles_same entered).1.trans shelf
    refine ⟨_, performed, ?_⟩
    rw [added, Breaks, ← same]
    rcases sortedHandles_cases (shelf ▸ answersOnly : entered.shelf.order.AnswersOnly keys) with
      ⟨unsortable, emptied, failure, broken⟩ | ⟨sortable, perm⟩
    · exact .inl ⟨⟨asks, unsortable⟩, ⟨by rw [emptied], onShelf⟩, rfl, failure, fails failure broken⟩
    · refine .inr ⟨fun both => sortable both.2, .of_perm ?_ (index ▸ perm)⟩
      rw [onShelf]
      exact .refl _
  · obtain ⟨after, performed, keeps, _⟩ := perform_unasking asks
    exact ⟨after, performed, .inr ⟨fun both => asks both.1, keeps⟩⟩

/-- What is left of the entries that a table took in: the handles name exactly the later ones of them,
and the earlier ones, if any, cannot all have keys of the class. All are in the arena. -/
structure HoldsSince (table : VectorTable) (keys : Bytes → Prop) (lost kept : List Bytes) : Prop where
  handles : ∃ entries, table.shelf.Reads table.index.handles entries ∧ entries.Perm kept
  unreadable : lost ≠ [] → ∃ entry ∈ lost, ¬ HasKey keys entry
  stored : ∀ entry ∈ lost ++ kept, ∃ handle, table.shelf.arena.get handle = .ok entry

/-- What one operation leaves of the entries that a table took in. -/
theorem HoldsSince.perform (holds : table.HoldsSince keys lost kept)
    (answersOnly : table.shelf.order.AnswersOnly keys) (operation : Operation) :
    ∃ after lost' kept', (MemTable.vector table).perform operation = .vector after ∧
      after.shelf.order = table.shelf.order ∧
      lost ++ kept ++ (MemTable.vector table).added operation = lost' ++ kept' ∧
      after.HoldsSince keys lost' kept' := by
  obtain ⟨⟨entries, reads, perm⟩, unreadable, stored⟩ := holds
  obtain ⟨after, performed, cases⟩ := perform_cases answersOnly operation
  rcases cases with
    ⟨⟨_, _, _, handle, member, broken⟩, ⟨emptied, shelf⟩, added, _⟩ | ⟨_, shelf, more, readMore, rest⟩
  · refine ⟨after, lost ++ kept, [], performed, by rw [shelf], by rw [added], ⟨[], ?_, .nil⟩, ?_, ?_⟩
    · rw [emptied]
      rfl
    · intro _
      obtain ⟨entry, inEntries, read⟩ := reads.exists_entry member
      refine ⟨entry, List.mem_append_right _ (perm.mem_iff.mp inEntries), fun hasKey => ?_⟩
      exact broken ⟨entry, read, hasKey⟩
    · rw [List.append_nil, shelf]
      exact stored
  · have readAll := (reads.keeps shelf.keeps).append readMore
    obtain ⟨arranged, readArranged, permArranged⟩ := readAll.perm rest
    refine ⟨after, lost, kept ++ (MemTable.vector table).added operation, performed, shelf.order,
      List.append_assoc .., ⟨arranged, readArranged, permArranged.trans (perm.append_right _)⟩,
      unreadable, ?_⟩
    intro entry member
    rcases List.mem_append.mp (List.append_assoc .. ▸ member) with before | now
    · obtain ⟨handle, read⟩ := stored entry before
      exact ⟨handle, shelf.keeps read⟩
    · obtain ⟨handle, _, read⟩ := readMore.exists_handle now
      exact ⟨handle, read⟩

/-- What a run leaves of the entries that a table takes in. -/
theorem HoldsSince.run (holds : table.HoldsSince keys lost kept)
    (answersOnly : table.shelf.order.AnswersOnly keys) (operations : List Operation) :
    ∃ after lost' kept', (MemTable.vector table).run operations = .vector after ∧
      after.shelf.order = table.shelf.order ∧
      lost ++ kept ++ accepted (.vector table) operations = lost' ++ kept' ∧
      after.HoldsSince keys lost' kept' := by
  induction operations generalizing table lost kept with
  | nil => exact ⟨table, lost, kept, rfl, rfl, List.append_nil _, holds⟩
  | cons operation rest ih =>
    obtain ⟨next, lostNow, keptNow, performed, order, split, now⟩ := holds.perform answersOnly operation
    obtain ⟨after, lostLater, keptLater, ran, sameOrder, splitLater, later⟩ :=
      ih now (order ▸ answersOnly)
    refine ⟨after, lostLater, keptLater, ?_, sameOrder.trans order, ?_, later⟩
    · rw [MemTable.run, List.foldl_cons, performed]
      exact ran
    · rw [accepted, performed, ← List.append_assoc, split, splitLater]

/-- After any run over whatever bytes, the handles of a table that sorts name exactly the entries that it
accepted since it last lost any, and what it loses has an entry without a readable key. Each further
operation keeps all handles unless it asks for the order of two or more that were never sorted and of
which one has no readable key: then it fails and no handle is left, though the arena has every entry. -/
theorem loses_unsortable_handles {fresh : VectorTable} (made : Fresh order (.vector fresh))
    (answersOnly : order.AnswersOnly keys) (operations : List Operation) :
    ∃ (table : VectorTable) (lost kept : List Bytes),
      (MemTable.vector fresh).run operations = .vector table ∧
      accepted (.vector fresh) operations = lost ++ kept ∧ table.HoldsSince keys lost kept ∧
      ∀ operation, ∃ after, (MemTable.vector table).perform operation = .vector after ∧
        ((table.Breaks keys operation ∧ table.LeftEmpty after ∧
            ∃ failure, (MemTable.vector table).outcome operation = .error failure) ∨
          (¬ table.Breaks keys operation ∧
            table.KeepsHandles after ((MemTable.vector table).added operation))) := by
  obtain ⟨handles, ordered⟩ : fresh.index.handles = [] ∧ fresh.shelf.order = order := by
    cases made with
    | vector ordered made =>
      obtain rfl := create_ok made
      exact ⟨rfl, ordered⟩
  subst ordered
  have initial : fresh.HoldsSince keys [] [] := by
    refine ⟨⟨[], ?_, .nil⟩, fun lost => absurd rfl lost, ?_⟩
    · rw [handles]
      rfl
    · intro entry member
      cases member
  obtain ⟨table, lost, kept, ran, order, split, holds⟩ := initial.run answersOnly operations
  refine ⟨table, lost, kept, ran, split, holds, fun operation => ?_⟩
  obtain ⟨after, performed, cases⟩ := perform_cases (order ▸ answersOnly) operation
  refine ⟨after, performed, cases.imp_left ?_⟩
  rintro ⟨breaks, left, _, failed⟩
  exact ⟨breaks, left, failed⟩

/-- A whole entry and a single byte are lost when a cursor is asked for. -/
theorem loses_entry_beside_byte :
    let empty : VectorTable := { shelf := { order := .versioned, arena := { id := 0 } }, index := {} }
    let entry : Bytes := [9, 0, 0, 0, 97, 1, 1, 0, 0, 0, 0, 0, 0, 0, 0, 0, 0]
    let operations : List Operation := [.insert ⟨0, ⟨0⟩, entry⟩, .insert ⟨0, ⟨1⟩, [0]⟩]
    Fresh .versioned (.vector empty) ∧ KeyOrder.versioned.AnswersOnly HasTag ∧
      ∃ table after failure, (MemTable.vector empty).run operations = .vector table ∧
        accepted (.vector empty) operations = [entry, [0]] ∧ table.index.handles = [⟨0⟩, ⟨1⟩] ∧
        (MemTable.vector table).perform (.openCursor .all) = .vector after ∧ table.LeftEmpty after ∧
        (MemTable.vector table).outcome (.openCursor .all) = .error failure := by
  intro empty entry operations
  have made : Fresh .versioned (.vector empty) :=
    @Fresh.vector .versioned empty.shelf empty 0 rfl rfl
  obtain ⟨table, lost, kept, ran, _, _, each⟩ :=
    loses_unsortable_handles made KeyOrder.versioned_answersOnly operations
  obtain rfl := MemTable.vector.inj ran
  obtain ⟨after, performed, ⟨_, left, failure, failed⟩ | ⟨whole, _⟩⟩ := each (.openCursor .all)
  · exact ⟨made, KeyOrder.versioned_answersOnly, _, after, failure, ran, by decide +kernel, by decide +kernel,
      performed, left, failed⟩
  · have stored : (insert ⟨0, ⟨1⟩, [0]⟩ (insert ⟨0, ⟨0⟩, entry⟩ empty).1).1.shelf.arena.get ⟨1⟩
        = .ok [0] := by decide +kernel
    refine absurd ⟨trivial, by decide +kernel, by decide +kernel, ⟨1⟩, by decide +kernel, ?_⟩ whole
    rintro ⟨other, read, key, cut, _⟩
    obtain rfl := Except.ok.inj (stored.symm.trans read)
    cases cut

/-- A search for a key that was inserted fails at a malformed entry and takes all handles out, so that the
next one does not find the key. -/
theorem contains_loses_handles :
    let entry : Bytes := [9, 0, 0, 0, 97, 1, 1, 0, 0, 0, 0, 0, 0, 0, 0, 0, 0]
    let key : Bytes := [97, 1, 1, 0, 0, 0, 0, 0, 0]
    let empty : VectorTable := { shelf := { order := .versioned, arena := { id := 0 } }, index := {} }
    let one := (insert ⟨0, ⟨0⟩, entry⟩ empty).1
    let two := (insert ⟨0, ⟨1⟩, [0]⟩ one).1
    let read := two.contains key
    (one.contains key).2 = .ok true ∧ two.index.handles = [⟨0⟩, ⟨1⟩] ∧
      read.2 = .error .outOfRange ∧ read.1.index.handles = [] ∧ (read.1.contains key).2 = .ok false := by
  decide +kernel

end VectorTable

end WriteBuffer
