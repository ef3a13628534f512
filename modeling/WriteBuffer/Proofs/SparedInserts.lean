import Mathlib
import WriteBuffer.Proofs.Renumbering.Sessions

/-!
Sessions in which an insert failed, and the same sessions without that insert. Later handles may be
greater by one for the attempt; apart from that one kind of attempt leaves a trace. A draft of another
arena is refused only after its bucket was given a list, and a bucket with a list hands out cursors that
see what is inserted later, where a bucket without one hands out cursors over nothing
(`TableSession.failed_insert_leaves_list`).
-/
namespace WriteBuffer

/-- Whether a step inserts an entry. -/
def TableCommand.IsInsert : TableCommand → Bool
  | add _ | addRaw _ | insert _ => true
  | _ => false

namespace TableSession

variable {renumbering : Renumbering} {left : Option Nat} {a b : TableSession} {draft : Draft}
  {failure : Failure}

/-- The session as it is when an insert is not tried: all that goes is the draft that was to be
inserted. -/
def spare (session : TableSession) : TableCommand → TableSession
  | .insert name => { session with drafts := session.drafts.drop name }
  | _ => session

theorem InOrder.spare (inOrder : a.InOrder) (command : TableCommand) : (a.spare command).InOrder := by
  cases command with
  | insert name => exact inOrder.drop name
  | _ => exact inOrder

namespace Spared

theorem start {table : MemTable} (made : table.Made)
    (bucketed : table.kind = .hashedSkipLists ∨ table.kind = .hashedChains) :
    Spared (.keeping 0) none { table } { table } :=
  ⟨⟨table, made.renumbered bucketed, .same table⟩, rfl, fun _ => rfl, fun _ => .none⟩

/-- A session agrees with one that differs in the table only, if the tables agree under numbers that
are no others for its entries and drafts. -/
theorem fixed (self : a.Spared renumbering none b) {other : Renumbering} {table : MemTable}
    (tables : a.table.Spared other left table)
    (keeps : ∀ handle, a.table.arena.Has handle → other.number handle = handle)
    (drafts : ∀ {name draft}, a.drafts.find? name = some draft → draft.renumber other 0 = draft) :
    Spared other left a { a with table } := by
  refine ⟨tables, rfl, fun name => ?_, fun name => ?_⟩
  · cases held : a.drafts.find? name with
    | none => rfl
    | some draft => exact congrArg some (drafts held).symm
  · have pair := self.cursors name
    simp only
    generalize a.cursors.find? name = cursor at pair ⊢
    generalize b.cursors.find? name = other at pair
    rcases pair with ⟨⟨_, renumbered, _⟩⟩ | _
    · exact .some ⟨_, renumbered.fixed keeps, .same _⟩
    · exact .none

/-- A session agrees with the one in which inserting a loose draft failed, but for the list that this
may leave. -/
theorem insert_failed (self : a.Spared renumbering none b) (inOrder : a.InOrder)
    (loose : a.Loose draft) (failed : (a.table.insert draft).2 = .error failure) :
    ∃ left, Spared (.keeping 0) left a { a with table := (a.table.insert draft).1 } ∧ ∀ bucket,
      (bucket ∈ left ↔ failure = .foreignBuffer ∧ draft.arena ≠ a.table.arena.id ∧
        a.table.FirstIn draft.bytes bucket) ∧
      (bucket ∈ left → ∃ userKey, entryUserKey draft.bytes = .ok userKey ∧
        (a.table.openCursor (.bucketOf userKey)).2 = .ok .nothing ∧
        ((a.table.insert draft).1.openCursor (.bucketOf userKey)).2 = .ok (.list { bucket })) := by
  obtain ⟨left, leaves, exactly⟩ :=
    inOrder.sound.insert_leaves loose.issued.ne_nowhere loose.free failed
  obtain ⟨_, renumbered, _⟩ := self.table
  refine ⟨left, self.fixed ⟨a.table, renumbered.keeping, leaves⟩ (fun _ _ => rfl) fun _ => ?_, exactly⟩
  simp only [Draft.renumber]
  split <;> rfl

/-- A session agrees with the one in which a draft was handed out, up to the numbers of later handles. -/
theorem allocate_skips (self : a.Spared renumbering none b) (inOrder : a.InOrder) (length : Nat)
    {table : MemTable} (leaves : (a.table.allocate length).1.Leaves left table) :
    Spared (.skipping a.table.arena.entries.reserved) left a { a with table } := by
  obtain ⟨_, renumbered, _⟩ := self.table
  refine self.fixed ⟨_, renumbered.skipping inOrder.packed length, leaves⟩ ?_ ?_
  · exact fun handle has => (Renumbering.skipping _).early handle (has.low inOrder.packed)
  · intro name draft held
    by_cases own : draft.arena = 0
    · have low := (inOrder.loose held).claimed (own.trans inOrder.arena_id.symm)
      rw [Draft.renumber, if_pos own, (Renumbering.skipping _).early _ low]
    · exact Draft.renumber_foreign own _

/-- A session agrees with the one in which inserting from a draft that was just handed out failed, up to
the numbers of later handles. -/
theorem insert_allocated_failed (self : a.Spared renumbering none b) (inOrder : a.InOrder)
    {length : Nat} (handedOut : (a.table.allocate length).2 = .ok draft) {bytes : Bytes}
    (failed : ((a.table.allocate length).1.insert { draft with bytes }).2 = .error failure) :
    Spared (.skipping a.table.arena.entries.reserved) none a
      { a with table := ((a.table.allocate length).1.insert { draft with bytes }).1 } := by
  obtain ⟨now, loose⟩ := inOrder.allocate length
  have loose := loose draft bytes handedOut
  obtain ⟨left, leaves, exactly⟩ :=
    now.sound.insert_leaves loose.issued.ne_nowhere loose.free failed
  have own : draft.arena = a.table.arena.id := Arena.arena_of_allocate handedOut
  have id : (a.table.allocate length).1.arena.id = a.table.arena.id := by
    rw [a.table.arena_allocate]
    rfl
  have nothing : left = none :=
    Option.eq_none_iff_forall_not_mem.mpr fun bucket member =>
      ((exactly bucket).1.mp member).2.1 (own.trans id.symm)
  exact self.allocate_skips inOrder length (nothing ▸ leaves)

/-- A session agrees with the one in which adding a record failed, up to the numbers of later
handles. -/
theorem add_failed (self : a.Spared renumbering none b) (inOrder : a.InOrder) (record : Record)
    (failed : (a.perform (.add record)).2 = .error (.failed failure)) :
    Spared (.skipping a.table.arena.entries.reserved) none a (a.perform (.add record)).1 := by
  have refused := fun {draft} (handedOut : (a.table.allocate record.size).2 = .ok draft) {bytes}
    (failed : ((a.table.allocate record.size).1.insert { draft with bytes }).2 = .error failure) =>
    self.insert_allocated_failed inOrder handedOut failed
  have skipped : Spared (.skipping a.table.arena.entries.reserved) none a
    { a with table := (a.table.allocate record.size).1 } := self.allocate_skips inOrder _ (.same _)
  replace failed := error_of_ofFailure failed
  simp only [TableSession.perform, TableSession.took]
  simp only [MemTable.add] at failed ⊢
  generalize a.table.allocate record.size = x at refused skipped failed ⊢
  obtain ⟨s, _ | draft⟩ := x
  · exact skipped
  · simp only at failed ⊢
    generalize record.write draft.bytes = written at failed ⊢
    obtain ⟨bytes, _ | done⟩ := written
    · exact skipped
    · refine refused rfl ?_
      simp only at failed ⊢
      cases inserted : (s.insert { draft with bytes }).2 with
      | error other =>
        rw [inserted] at failed
        exact congrArg _ (Except.error.inj failed)
      | ok done =>
        rw [inserted] at failed
        cases failed

theorem addRaw_failed (self : a.Spared renumbering none b) (inOrder : a.InOrder) (entry : Bytes)
    (failed : (a.perform (.addRaw entry)).2 = .error (.failed failure)) :
    Spared (.skipping a.table.arena.entries.reserved) none a (a.perform (.addRaw entry)).1 := by
  have refused := fun {draft} (handedOut : (a.table.allocate entry.length).2 = .ok draft) {bytes}
    (failed : ((a.table.allocate entry.length).1.insert { draft with bytes }).2 = .error failure) =>
    self.insert_allocated_failed inOrder handedOut failed
  have skipped : Spared (.skipping a.table.arena.entries.reserved) none a
    { a with table := (a.table.allocate entry.length).1 } := self.allocate_skips inOrder _ (.same _)
  simp only [TableSession.perform] at failed ⊢
  generalize a.table.allocate entry.length = x at refused skipped failed ⊢
  obtain ⟨s, _ | draft⟩ := x
  · exact skipped
  · exact refused rfl (error_of_ofFailure failed)

end Spared

/-- A step inserts a draft of another arena, with the first entry that its bucket is offered. -/
def GivesList (session : TableSession) (command : TableCommand) (bucket : Nat) : Prop :=
  ∃ name draft, command = .insert name ∧ session.drafts.find? name = some draft ∧
    draft.arena ≠ session.table.arena.id ∧ session.table.FirstIn draft.bytes bucket

theorem find?_openCursor {session : TableSession} {range : MemTable.Range} {cursor : TableCursor}
    (opened : (session.table.openCursor range).2 = .ok cursor) (name : String) :
    (session.execute (.openCursor name range)).1.cursors.find? name = some cursor := by
  simp only [TableSession.execute, TableSession.perform]
  generalize session.table.openCursor range = outcome at opened ⊢
  obtain ⟨table, answer⟩ := outcome
  simp only at opened
  subst opened
  exact (Named.find?_put ..).trans (if_pos rfl)

/-- What an insert that fails leaves behind: other numbers for handles that are handed out later, and a
list that it gave a bucket, along which a cursor can be opened now. -/
structure Trace (renumbering : Renumbering) (left : Option Nat) (session : TableSession)
    (command : TableCommand) (failure : Failure) : Prop where
  sessions : Spared renumbering left (session.spare command) (session.perform command).1
  early : ∀ handle : Handle, handle.index.toNat < session.table.arena.entries.reserved →
    renumbering.number handle = handle
  given : ∀ bucket, bucket ∈ left ↔ failure = .foreignBuffer ∧ session.GivesList command bucket
  opens : ∀ bucket ∈ left, ∃ userKey,
    ((session.spare command).table.openCursor (.bucketOf userKey)).2 = .ok .nothing ∧
    ((session.perform command).1.table.openCursor (.bucketOf userKey)).2 = .ok (.list { bucket })

/-- A step that inserts no draft gives no list. -/
theorem Trace.skipping {command : TableCommand}
    (agree : Spared (.skipping a.table.arena.entries.reserved) none a (a.perform command).1)
    (same : a.spare command = a) (other : ∀ name, command ≠ .insert name) :
    Trace (.skipping a.table.arena.entries.reserved) none a command failure where
  sessions := same.symm ▸ agree
  early := (Renumbering.skipping _).early
  given bucket := by
    refine ⟨nofun, ?_⟩
    rintro ⟨_, name, _, inserted, _⟩
    exact absurd inserted (other name)
  opens := nofun

/-- An insert that fails leaves no more behind than that. -/
theorem Spared.trace (self : a.Spared renumbering none b) (inOrder : a.InOrder)
    {command : TableCommand} (inserts : command.IsInsert = true)
    (failed : (a.perform command).2 = .error (.failed failure)) :
    ∃ left other, Trace other left a command failure := by
  cases command with
  | add record => exact ⟨none, _, .skipping (self.add_failed inOrder record failed) rfl nofun⟩
  | addRaw entry => exact ⟨none, _, .skipping (self.addRaw_failed inOrder entry failed) rfl nofun⟩
  | insert name =>
    simp only [TableSession.perform] at failed
    cases held : a.drafts.find? name with
    | none =>
      rw [held] at failed
      cases failed
    | some draft =>
      rw [held] at failed
      have stepped : (a.perform (.insert name)).1
          = { a.spare (.insert name) with table := (a.table.insert draft).1 } := by
        simp only [TableSession.perform, held]
        rfl
      obtain ⟨left, agree, exactly⟩ := (self.dropDraft name).insert_failed (inOrder.drop name)
        (inOrder.loose held) (error_of_ofFailure failed)
      refine ⟨left, _, stepped ▸ agree, fun _ _ => rfl, fun bucket => ?_, fun bucket member => ?_⟩
      · refine (exactly bucket).1.trans (and_congr_right fun _ =>
          ⟨fun gives => ⟨name, draft, rfl, held, gives⟩, ?_⟩)
        rintro ⟨_, other, same, found, gives⟩
        obtain rfl := TableCommand.insert.inj same
        obtain rfl := Option.some.inj (held.symm.trans found)
        exact gives
      · obtain ⟨userKey, _, nothing, list⟩ := (exactly bucket).2 member
        exact ⟨userKey, nothing, stepped ▸ list⟩
  | _ => cases inserts

/-- Whenever an insert into a table with buckets fails, the session goes on as if the insert had not
been tried, up to the numbers of later handles and what it keeps account of, but for cursors over a
bucket that was given a list by the attempt. It was given one if and only if it had none and the draft
was refused as one of another arena. Cursors that are opened over it go along the list, and over nothing
without the attempt. -/
theorem failed_insert_leaves_list {table : MemTable} (made : table.Made)
    (bucketed : table.kind = .hashedSkipLists ∨ table.kind = .hashedChains)
    (empty : table.arena = { id := 0 }) (earlier : List TableCommand) {command : TableCommand}
    (inserts : command.IsInsert = true)
    (failed : ((run { table } earlier).execute command).2 = .error (.failed failure)) :
    let now := run { table } earlier
    let tried := (now.execute command).1
    let spared := now.spare command
    ∃ (left : Option Nat) (number : Handle → Handle), number.Injective ∧
      (∀ handle, handle.index.toNat < now.table.arena.entries.reserved → number handle = handle) ∧
      (∀ bucket, bucket ∈ left ↔ failure = .foreignBuffer ∧ now.GivesList command bucket) ∧
      (∀ bucket ∈ left, ∃ userKey, ∀ name step,
        Tells left (spared.execute (.openCursor name (.bucketOf userKey))).1
          (tried.execute (.openCursor name (.bucketOf userKey))).1 (.cursor name step)) ∧
      ∀ later, (tried.run later).table.arena.entries.reserved < UInt32.size - 1 →
        (∀ handle entry, (spared.run later).table.arena.get handle = .ok entry →
          (tried.run later).table.arena.get (number handle) = .ok entry) ∧
        ∀ next, next.IsAccount = false →
          ((tried.run later).execute next).2
              = ((spared.run later).execute next).2.map (next.renumber number) ∨
            Tells left (spared.run later) (tried.run later) next := by
  intro now tried spared
  have inOrder : now.InOrder := (inOrder_start made empty).run earlier
  have self : now.Spared (.keeping 0) none now :=
    (Spared.start made bucketed).run (inOrder_start made empty) earlier (.inl rfl)
  obtain ⟨left, renumbering, trace⟩ := self.trace inOrder inserts failed
  have sessions : spared.Spared renumbering left tried :=
    ⟨trace.sessions.table, trace.sessions.otherArena, trace.sessions.drafts, trace.sessions.cursors⟩
  have sparedInOrder : spared.InOrder := inOrder.spare command
  refine ⟨left, renumbering.number, renumbering.injective, trace.early, trace.given, ?_, ?_⟩
  · intro bucket member
    obtain ⟨userKey, nothing, list⟩ := trace.opens bucket member
    refine ⟨userKey, fun name step => ⟨bucket, member, name, step, none, rfl, ?_, ?_⟩⟩
    · exact find?_openCursor nothing name
    · exact @find?_openCursor tried _ _ list name
  · intro later lasts
    have agree := sessions.run sparedInOrder later (.inr lasts)
    refine ⟨fun handle entry found => ?_, fun next plain => ?_⟩
    · rw [agree.table.arena.get ⟨entry, found⟩, found]
    · exact (agree.execute (sparedInOrder.run later) (.inr lasts) next).2 plain

/-- A refused draft may be the first that a bucket is offered. -/
theorem first_foreign_draft_leaves_list :
    let table : MemTable := .hashedSkipLists {
      shelf := { order := .versioned, arena := { id := 0 } }
      index := {
        placement := { rule := .whole, hash := fun _ => 0 }
        maxHeight := 4
        branching := 4
        heights := fun _ => 1
        buckets := .empty 1 } }
    let earlier : List TableCommand :=
      [.allocateElsewhere "b" 17, .encode "b" ⟨[97], 1, .put, []⟩]
    let now := run { table } earlier
    let tried := (now.execute (.insert "b")).1
    let spared := now.spare (.insert "b")
    (now.execute (.insert "b")).2 = .error (.failed .foreignBuffer) ∧
      ∃ userKey, ∀ name step,
        Tells (some 0) (spared.execute (.openCursor name (.bucketOf userKey))).1
          (tried.execute (.openCursor name (.bucketOf userKey))).1 (.cursor name step) := by
  intro table earlier now tried spared
  have refused : (now.execute (.insert "b")).2 = .error (.failed .foreignBuffer) := by decide +kernel
  have held : now.drafts.find? "b" =
      some ⟨1, ⟨0⟩, [9, 0, 0, 0, 97, 1, 1, 0, 0, 0, 0, 0, 0, 0, 0, 0, 0]⟩ := by decide +kernel
  have made : table.Made := .ordered (@MemTable.Fresh.hashedSkipLists _ _ _
    { rule := .whole, hash := fun _ => 0 } (fun _ => 1) 1 4 4 rfl rfl)
  obtain ⟨left, _, _, _, given, tells, _⟩ := failed_insert_leaves_list made (.inl rfl) rfl earlier
    (show (TableCommand.insert "b").IsInsert = true from rfl) refused
  have member : 0 ∈ left :=
    (given 0).mpr ⟨rfl, "b", _, rfl, held, by decide, _, rfl, by decide +kernel, rfl⟩
  obtain rfl : left = some 0 := member
  exact ⟨refused, tells 0 rfl⟩

/-- A cursor over the bucket of a refused draft shows an entry that is added after it was opened, and
nothing if the draft was not offered. -/
theorem cursor_shows_entry_after_refusal :
    let table : MemTable := .hashedSkipLists {
      shelf := { order := .versioned, arena := { id := 0 } }
      index := {
        placement := { rule := .whole, hash := fun _ => 0 }
        maxHeight := 4
        branching := 4
        heights := fun _ => 1
        buckets := .empty 1 } }
    let record : Record := ⟨[97], 1, .put, []⟩
    let now := run { table } [.allocateElsewhere "b" 17, .encode "b" record]
    let later : List TableCommand := [.openCursor "c" (.bucketOf [97]), .add record]
    let first : TableCommand := .cursor "c" (.move .first)
    (now.execute (.insert "b")).2 = .error (.failed .foreignBuffer) ∧
      (((now.execute (.insert "b")).1.run later).execute first).2
        = .ok (.cursor (.current (some [9, 0, 0, 0, 97, 1, 1, 0, 0, 0, 0, 0, 0, 0, 0, 0, 0]))) ∧
      (((now.spare (.insert "b")).run later).execute first).2 = .ok (.cursor (.current none)) := by
  decide +kernel

end TableSession

end WriteBuffer
