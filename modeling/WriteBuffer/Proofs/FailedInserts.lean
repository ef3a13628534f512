import Mathlib
import WriteBuffer.Proofs.Table.Cursor
import WriteBuffer.Proofs.WholeInserts

/-!
Inserts that fail. Tables that agree but for lists without nodes give the same answers
(`MemTable.Alike.sameAnswers`) and stay so whatever is done to both (`MemTable.Alike.run`). A failed
insert leaves such a table behind, so nothing that is asked or inserted later tells whether it was
tried (`MemTable.failed_insert_changes_nothing`).
-/
namespace WriteBuffer

namespace HashedSkipTable

variable {a b : HashedSkipTable}

/-- A visitor sees the list of the bucket of the user key, if the bucket has one. -/
theorem get_eq (table : HashedSkipTable) (key : LookupKey) (goesOn : List Bytes → Bool) :
    ((MemTable.hashedSkipLists table).get key goesOn).2 = (do
      let bucket ← table.index.bucketOf (← key.userKey)
      Option.elim (table.index.buckets.get? bucket) (.ok []) fun list =>
        (list.moves table.index.nodes table.shelf).visitFrom none key.internalKey goesOn) := by
  simp only [MemTable.get]
  cases key.userKey with
  | error failure => rfl
  | ok userKey =>
    simp only [MemTable.openCursor, bucketCursor, bind, Except.bind, pure, Except.pure]
    cases table.index.bucketOf userKey with
    | error failure => rfl
    | ok bucket =>
      simp only
      cases found : table.index.buckets.get? bucket with
      | none => exact (TableCursor.carries_nothing _ _ _).visitFrom () key.internalKey goesOn
      | some list =>
        have along : listMoves table bucket = list.moves table.index.nodes table.shelf := by
          simp only [listMoves, found, Option.getD_some]
        rw [Option.elim_some, ← along]
        exact ((TableCursor.carries_list _ _ _).visitFrom { bucket } key.internalKey goesOn).trans
          ((BucketCursor.carries (listMoves table) bucket).visitFrom none key.internalKey goesOn)

theorem scan_eq (table : HashedSkipTable) : (MemTable.hashedSkipLists table).scan.2 = (do
    let handles ← table.sortedHandles
    ((RunCursor.moves table.shelf).walkForward (RunCursor.goTo { handles } 0)).2) := by
  simp only [MemTable.scan, MemTable.openCursor, bind, Except.bind, pure, Except.pure]
  cases table.sortedHandles with
  | error failure => rfl
  | ok handles => exact (TableCursor.carries_run _ _ _).walkForward (RunCursor.goTo { handles } 0)

theorem scanBackward_eq (table : HashedSkipTable) :
    (MemTable.hashedSkipLists table).scanBackward.2 = (do
      let handles ← table.sortedHandles
      ((RunCursor.moves table.shelf).walkBackward
        (RunCursor.goTo { handles } (handles.length - 1))).2) := by
  simp only [MemTable.scanBackward, MemTable.openCursor, bind, Except.bind, pure, Except.pure]
  cases table.sortedHandles with
  | error failure => rfl
  | ok handles =>
    exact (TableCursor.carries_run _ _ _).walkBackward (RunCursor.goTo { handles } _)

end HashedSkipTable

namespace MemTable

variable {table a b : MemTable}

/-- Two tables have the same entries and answer every question and every insert alike. -/
structure SameAnswers (a b : MemTable) : Prop where
  arena : b.arena = a.arena
  isReadOnly : b.isReadOnly = a.isReadOnly
  scan : b.scan.2 = a.scan.2
  scanBackward : b.scanBackward.2 = a.scanBackward.2
  contains : ∀ internalKey, (b.contains internalKey).2 = (a.contains internalKey).2
  get : ∀ key goesOn, (b.get key goesOn).2 = (a.get key goesOn).2
  insert : ∀ draft, (b.insert draft).2 = (a.insert draft).2

theorem Alike.eq_of_kind (alike : a.Alike b) (others : a.kind ≠ .hashedSkipLists) : b = a := by
  cases alike with
  | same => rfl
  | hashedSkipLists alike => exact absurd rfl others

/-- Tables that agree but for lists without nodes give the same answers. -/
theorem Alike.sameAnswers (alike : a.Alike b) : a.SameAnswers b := by
  cases alike with
  | same => exact ⟨rfl, rfl, rfl, rfl, fun _ => rfl, fun _ _ => rfl, fun _ => rfl⟩
  | @hashedSkipLists a b alike =>
    refine ⟨congrArg Shelf.arena alike.shelf, congrArg Gate.readOnly alike.gate, ?_, ?_,
      alike.contains_eq, fun key goesOn => ?_, fun draft => (alike.insert draft).1⟩
    · rw [HashedSkipTable.scan_eq, HashedSkipTable.scan_eq, alike.sortedHandles_eq, alike.shelf]
    · rw [HashedSkipTable.scanBackward_eq, HashedSkipTable.scanBackward_eq, alike.sortedHandles_eq,
        alike.shelf]
    · rw [HashedSkipTable.get_eq, HashedSkipTable.get_eq]
      simp only [alike.bucketOf_eq, alike.nodes, alike.shelf,
        alike.elim_eq fun list vacant => vacant.visitFrom_eq _ _ key.internalKey goesOn]

/-- An operation adds the same to tables that are alike, and keeps them so. -/
theorem Alike.perform (alike : a.Alike b) (operation : Operation) :
    (a.perform operation).Alike (b.perform operation) ∧ b.added operation = a.added operation := by
  cases alike with
  | same => exact ⟨.same _, rfl⟩
  | @hashedSkipLists a b alike =>
    cases operation with
    | insert draft =>
      obtain ⟨answer, now⟩ := alike.insert draft
      have added : gained draft (HashedSkipTable.insert draft b).2
          = gained draft (HashedSkipTable.insert draft a).2 := by rw [answer]
      exact ⟨.hashedSkipLists now, added⟩
    | allocate size =>
      have shelf := congrArg (fun shelf : Shelf =>
        { shelf with arena := (shelf.arena.allocate size).1 }) alike.shelf
      exact ⟨.hashedSkipLists ⟨shelf, alike.gate, alike.index, alike.size, alike.lists⟩, rfl⟩
    | contains internalKey => exact ⟨.hashedSkipLists alike, rfl⟩
    | get key goesOn =>
      simp only [MemTable.perform, MemTable.get]
      cases key.userKey <;> exact ⟨.hashedSkipLists alike, rfl⟩
    | openCursor range => exact ⟨.hashedSkipLists alike, rfl⟩
    | close =>
      have closed : (Table.close .hashedSkipLists b).gate = (Table.close .hashedSkipLists a).gate :=
        congrArg Gate.close alike.gate
      exact ⟨.hashedSkipLists ⟨alike.shelf, closed, alike.index, alike.size, alike.lists⟩, rfl⟩

/-- Tables that are alike stay so and accept the same entries, whatever is done to both. -/
theorem Alike.run (alike : a.Alike b) (operations : List Operation) :
    (a.run operations).Alike (b.run operations) ∧ accepted b operations = accepted a operations := by
  induction operations generalizing a b with
  | nil => exact ⟨alike, rfl⟩
  | cons operation rest ih =>
    obtain ⟨step, added⟩ := alike.perform operation
    obtain ⟨last, same⟩ := ih step
    exact ⟨last, by rw [accepted, accepted, added, same]⟩

/-- Operations as they may occur: all drafts that are inserted were handed out by some arena. -/
def AllIssued (operations : List Operation) : Prop :=
  ∀ draft, .insert draft ∈ operations → draft.Issued

/-- An insert that fails, into a table of any kind and with any order in any state that can be
reached, leaves the arena as it was, and all else too in a table without lists by bucket. Whatever is
done later, the table answers and accepts what it would have without the attempt, and its gate takes
nobody for a second writer. -/
theorem failed_insert_changes_nothing (made : Made table) {operations : List Operation}
    (issued : AllIssued operations) {draft : Draft} (handedOut : draft.Issued) {failure : Failure}
    (failed : ((table.run operations).insert draft).2 = .error failure) :
    let now := table.run operations
    let after := (now.insert draft).1
    after.arena = now.arena ∧ (now.kind ≠ .hashedSkipLists → after = now) ∧
      ∀ later, AllIssued later →
        (now.run later).SameAnswers (after.run later) ∧ accepted after later = accepted now later ∧
          ∀ reached ∈ [now.run later, after.run later], ∀ kind,
            reached.gate.enter kind ≠ .error (.secondWriter kind) := by
  intro now after
  have sound : now.Sound := made.sound.run operations issued
  have alike : now.Alike after := by
    rcases sound.insert_cases handedOut.ne_nowhere with
      ⟨left, other, kept, alike, _⟩ | ⟨next, done, _⟩
    · have same : after = left := congrArg Prod.fst kept
      rwa [same]
    · cases failed.symm.trans (congrArg Prod.snd done)
  refine ⟨alike.sameAnswers.arena, alike.eq_of_kind, fun later issuedLater => ?_⟩
  obtain ⟨still, same⟩ := alike.run later
  refine ⟨still.sameAnswers, same, ?_⟩
  intro reached member kind
  have vacant : reached.gate.occupied = false := by
    rcases List.mem_pair.mp member with rfl | rfl
    · exact (sound.run later issuedLater).vacant
    · exact ((sound.alike alike).run later issuedLater).vacant
  cases closed : reached.gate.readOnly <;> simp [Gate.enter, closed, vacant]

/-- A bucket that got its list from a foreign draft accepts the entry from a draft of its own. -/
theorem accepts_after_failed_insert :
    let table : HashedSkipTable := {
      shelf := { order := .versioned, arena := { id := 0 } }
      index := {
        placement := { rule := .whole, hash := fun _ => 0 }
        maxHeight := 4
        branching := 4
        heights := fun _ => 1
        buckets := .empty 1 } }
    let entry : Bytes := [9, 0, 0, 0, 97, 1, 1, 0, 0, 0, 0, 0, 0, 0, 0, 0, 0]
    let foreign : Draft := ⟨1, ⟨0⟩, entry⟩
    let own : Draft := ⟨0, ⟨0⟩, entry⟩
    ((hashedSkipLists table).insert foreign).2 = .error .foreignBuffer ∧
      accepted ((hashedSkipLists table).insert foreign).1 [.insert own] = [entry] := by
  intro table entry foreign own
  have refused : ((hashedSkipLists table).insert foreign).2 = .error .foreignBuffer := by
    decide +kernel
  have made : Made (hashedSkipLists table) :=
    .ordered (@Fresh.hashedSkipLists _ _ table table.index.placement table.index.heights 1 4 4 rfl rfl)
  have issued : ∀ arena : Nat, Draft.Issued ⟨arena, ⟨0⟩, entry⟩ := fun arena =>
    ⟨{ id := arena }, 0, ⟨arena, ⟨0⟩, []⟩, rfl, rfl, rfl⟩
  have one : AllIssued [.insert own] := by
    intro draft member
    obtain rfl := Operation.insert.inj (List.mem_singleton.mp member)
    exact issued 0
  have none : AllIssued [] := fun _ member => nomatch member
  obtain ⟨_, _, later⟩ := failed_insert_changes_nothing made none (issued 1) refused
  exact ⟨refused, (later [.insert own] one).2.1.trans (by decide +kernel)⟩

end MemTable

end WriteBuffer
