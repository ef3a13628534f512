import Mathlib
import WriteBuffer.Proofs.Extending
import WriteBuffer.Proofs.Publishing
import WriteBuffer.Proofs.WholeInserts
import WriteBuffer.Session.Tables

/-!
Sessions with a table. The arena of the table and the one beside it are those of a session with two
arenas (`TableSession.arenas`), so a draft that is held was handed out by one of them, its handle names
no entry and is that of no other draft; and the table is sound (`TableSession.InOrder`). Every step
keeps a session in order (`TableSession.InOrder.perform`).
-/
namespace WriteBuffer

theorem error_of_ofFailure {α β : Type} {f : α → β} {answer : Except Failure α} {failure : Failure}
    (failed : StepError.ofFailure (answer.map f) = .error (.failed failure)) :
    answer = .error failure := by
  cases answer with
  | ok value => cases failed
  | error other =>
    cases failed
    rfl

theorem ok_of_ofFailure {α β : Type} {f : α → β} {answer : Except Failure α} {reply : β}
    (done : StepError.ofFailure (answer.map f) = .ok reply) : ∃ value, answer = .ok value := by
  cases answer with
  | ok value => exact ⟨value, rfl⟩
  | error failure => cases done

namespace MemTable

/-- Only allocations and inserts change what is on the shelf. -/
theorem shelf_perform (table : MemTable) {operation : Operation}
    (reads : ∀ size, operation ≠ .allocate size) (keeps : ∀ draft, operation ≠ .insert draft) :
    (table.perform operation).shelf = table.shelf := by
  have opened : ∀ range, (table.openCursor range).1.shelf = table.shelf := by
    intro range
    cases table with
    | vector table => exact (VectorTable.sortedHandles_same table).1
    | skipList table | hashedSkipLists table | hashedChains table | cuckoo table => rfl
  cases operation with
  | allocate size => exact absurd rfl (reads size)
  | insert draft => exact absurd rfl (keeps draft)
  | openCursor range => exact opened range
  | contains internalKey => cases table <;> exact opened .all
  | get key goesOn =>
    simp only [MemTable.perform, MemTable.get]
    cases key.userKey with
    | error failure => rfl
    | ok userKey => cases table <;> exact opened (.bucketOf userKey)
  | close =>
    cases table with
    | vector table =>
      simp only [MemTable.perform, MemTable.close, VectorTable.close]
      split
      · rfl
      · exact (VectorTable.sortedHandles_same (Table.close .vector table)).1
    | skipList table | hashedSkipLists table | hashedChains table | cuckoo table => rfl

theorem arena_allocate (table : MemTable) (size : Nat) :
    (table.allocate size).1.arena = (table.arena.allocate size).1 := by
  cases table <;> rfl

/-- A handle that was handed out stays so. -/
theorem reserved_perform (table : MemTable) (operation : Operation) :
    table.arena.entries.reserved ≤ (table.perform operation).arena.entries.reserved := by
  by_cases asks : ∃ size, operation = .allocate size
  · obtain ⟨size, rfl⟩ := asks
    exact (congrArg (·.entries.reserved) (table.arena_allocate size)).ge.trans' (Nat.le_succ _)
  by_cases writes : ∃ draft, operation = .insert draft
  · obtain ⟨draft, rfl⟩ := writes
    have taking := table.insert_taking draft
    simp only [MemTable.perform, arena]
    generalize (table.insert draft).1.shelf = shelf at taking ⊢
    generalize (table.insert draft).2 = answer at taking
    cases taking with
    | refused failure => exact le_rfl
    | published stored answer => exact (Arena.publish_reserved stored).ge
  · push Not at asks writes
    exact (congrArg (·.arena.entries.reserved) (table.shelf_perform asks writes)).ge

theorem reserved_run (table : MemTable) (operations : List Operation) :
    table.arena.entries.reserved ≤ (table.run operations).arena.entries.reserved := by
  induction operations generalizing table with
  | nil => exact le_rfl
  | cons operation rest ih => exact (table.reserved_perform operation).trans (ih _)

theorem exists_run_add (table : MemTable) (record : Record) :
    ∃ operations, (table.add record).1 = table.run operations := by
  simp only [MemTable.add]
  rcases allocated : table.allocate record.size with ⟨now, _ | draft⟩
  · exact ⟨[.allocate record.size], (congrArg Prod.fst allocated).symm⟩
  · obtain rfl : (table.allocate record.size).1 = now := congrArg Prod.fst allocated
    simp only
    rcases record.write draft.bytes with ⟨bytes, _ | _⟩
    · exact ⟨[.allocate record.size], rfl⟩
    · exact ⟨[.allocate record.size, .insert { draft with bytes }], rfl⟩

end MemTable

namespace TableSession

variable {session : TableSession} {asked : Nat → Nat} {writes : Nat → List (UInt32 × Bytes)}
  {draft : Draft}

def run (session : TableSession) (commands : List TableCommand) : TableSession :=
  commands.foldl (fun session command => (session.execute command).1) session

/-- All that a step does to the table is done by operations. -/
theorem exists_run (session : TableSession) (command : TableCommand) :
    ∃ operations, (session.perform command).1.table = session.table.run operations := by
  cases command with
  | add record => exact session.table.exists_run_add record
  | addRaw entry =>
    simp only [perform]
    rcases allocated : session.table.allocate entry.length with ⟨now, _ | draft⟩
    · exact ⟨[.allocate entry.length], (congrArg Prod.fst allocated).symm⟩
    · obtain rfl : (session.table.allocate entry.length).1 = now := congrArg Prod.fst allocated
      exact ⟨[.allocate entry.length, .insert { draft with bytes := entry }], rfl⟩
  | allocate name size =>
    refine ⟨[.allocate size], ?_⟩
    simp only [perform, keepDraft]
    split <;> rfl
  | allocateElsewhere name size =>
    refine ⟨[], ?_⟩
    simp only [perform, keepDraft]
    split <;> rfl
  | encode name record | fill name bytes =>
    refine ⟨[], ?_⟩
    simp only [perform, onDraft]
    split <;> rfl
  | insert name =>
    simp only [perform]
    cases session.drafts.find? name with
    | none => exact ⟨[], rfl⟩
    | some draft => exact ⟨[.insert draft], rfl⟩
  | discard name =>
    refine ⟨[], ?_⟩
    simp only [perform]
    split <;> rfl
  | has key =>
    simp only [perform]
    cases key.encode with
    | error failure => exact ⟨[], rfl⟩
    | ok internalKey => exact ⟨[.contains internalKey], rfl⟩
  | hasRaw internalKey => exact ⟨[.contains internalKey], rfl⟩
  | get userKey sequence limit =>
    simp only [perform]
    cases LookupKey.of userKey sequence with
    | error failure => exact ⟨[], rfl⟩
    | ok key => exact ⟨[.get key _], rfl⟩
  | scan | scanBackward => exact ⟨[.openCursor .all], rfl⟩
  | openCursor name range =>
    refine ⟨[.openCursor range], ?_⟩
    simp only [perform]
    rcases opened : session.table.openCursor range with ⟨now, _ | cursor⟩ <;>
      exact (congrArg Prod.fst opened).symm
  | cursor name step =>
    refine ⟨[], ?_⟩
    simp only [perform]
    split <;> rfl
  | close => exact ⟨[.close], rfl⟩
  | memory | consulted | isReadOnly | arenaSize | arenaMemory | arenaEntry | identity | bucketCount
    | cuckooState | entriesForFlush => exact ⟨[], rfl⟩

theorem reserved_run (session : TableSession) (commands : List TableCommand) :
    session.table.arena.entries.reserved ≤ (session.run commands).table.arena.entries.reserved := by
  induction commands generalizing session with
  | nil => exact le_rfl
  | cons command rest ih =>
    obtain ⟨operations, same⟩ := session.exists_run command
    have stepped : session.table.arena.entries.reserved
        ≤ (session.execute command).1.table.arena.entries.reserved :=
      (session.table.reserved_run operations).trans_eq (by rw [← same]; rfl)
    exact stepped.trans (ih _)

/-- Every entry that was published before a run can be read after it. -/
theorem run_extends (session : TableSession) (commands : List TableCommand) :
    session.table.shelf.Extends (session.run commands).table.shelf := by
  induction commands generalizing session with
  | nil => exact .refl _
  | cons command rest ih =>
    obtain ⟨operations, same⟩ := session.exists_run command
    have stepped : session.table.shelf.Extends (session.execute command).1.table.shelf := by
      have extended := session.table.run_extends operations
      rw [← same] at extended
      exact extended
    exact stepped.trans (ih _)

def arenas (session : TableSession) : ArenaSession where
  arenas := [session.table.arena, session.otherArena]
  drafts := session.drafts

/-- A session has a sound table, and its arenas account for the drafts that it holds. -/
structure InOrder (session : TableSession) : Prop where
  sound : session.table.Sound
  issued : ∀ {name draft}, session.drafts.find? name = some draft → draft.Issued
  accounts : ∃ asked writes, session.arenas.Accounts 2 asked writes

theorem inOrder_start {table : MemTable} (made : MemTable.Made table)
    (empty : table.arena = { id := 0 }) : InOrder { table } where
  sound := made.sound
  issued := nofun
  accounts := by
    refine ⟨_, _, (?_ : arenas { table } = ArenaSession.start 2) ▸ ArenaSession.accounts_start 2⟩
    simp only [arenas, empty]
    rfl

namespace InOrder

theorem withTable (inOrder : session.InOrder) {table : MemTable} (sound : table.Sound)
    (same : table.shelf = session.table.shelf) : InOrder { session with table } := by
  obtain ⟨asked, writes, accounts⟩ := inOrder.accounts
  refine ⟨sound, inOrder.issued, asked, writes, ?_⟩
  simpa only [arenas, MemTable.arena, same] using accounts

theorem drop (inOrder : session.InOrder) (name : String) :
    InOrder { session with drafts := session.drafts.drop name } := by
  obtain ⟨asked, writes, accounts⟩ := inOrder.accounts
  refine ⟨inOrder.sound, fun {other draft} held => ?_, asked, writes, accounts.drop name⟩
  rw [Named.find?_drop] at held
  split at held
  · cases held
  · exact inOrder.issued held

theorem refill (inOrder : session.InOrder) {name : String}
    (held : session.drafts.find? name = some draft) (bytes : Bytes) :
    InOrder { session with drafts := session.drafts.put name { draft with bytes } } := by
  obtain ⟨asked, writes, accounts⟩ := inOrder.accounts
  refine ⟨inOrder.sound, fun {other x} found => ?_, asked, writes, ?_⟩
  · rw [Named.find?_put] at found
    split at found
    · obtain rfl := Option.some.inj found
      have issued : draft.Issued := inOrder.issued held
      exact issued
    · exact inOrder.issued found
  · obtain ⟨inside, claimed, fresh⟩ := accounts.drafts held
    exact accounts.put inside claimed fresh fun other sameArena sameHandle =>
      accounts.apart other held sameArena sameHandle

theorem tracks (accounts : session.arenas.Accounts 2 asked writes) :
    session.table.arena.Tracks 0 (asked 0) (writes 0) := 
      accounts.arenas (show session.arenas.arenas[0]? = some session.table.arena from rfl)

theorem arena_id (inOrder : session.InOrder) : session.table.arena.id = 0 := by
  obtain ⟨asked, writes, accounts⟩ := inOrder.accounts
  exact (tracks accounts).id

theorem otherArena_id (inOrder : session.InOrder) : session.otherArena.id = 1 := by
  obtain ⟨asked, writes, accounts⟩ := inOrder.accounts
  exact (accounts.arenas (show session.arenas.arenas[1]? = some session.otherArena from rfl)).id

theorem packed (inOrder : session.InOrder) : session.table.arena.entries.Packed := by
  obtain ⟨asked, writes, accounts⟩ := inOrder.accounts
  have tracks := tracks accounts
  intro index taken
  rw [tracks.entries.reserved]
  exact accounts.claimed (by decide) (tracks.entries.isSome_iff.mp taken)

end InOrder

/-- A draft that a session does not hold: it was handed out, and if it is of the arena of the table, its
handle was handed out there, names no entry and is that of no draft that is held. -/
structure Loose (session : TableSession) (draft : Draft) : Prop where
  issued : draft.Issued
  claimed : draft.arena = session.table.arena.id →
    draft.handle.index.toNat < session.table.arena.entries.reserved
  free : draft.arena = session.table.arena.id →
    session.table.arena.entries.get? draft.handle.index = none
  apart : ∀ {name held}, session.drafts.find? name = some held → held.arena = draft.arena →
    held.handle ≠ draft.handle

namespace InOrder

theorem loose (inOrder : session.InOrder) {name : String}
    (held : session.drafts.find? name = some draft) :
    Loose { session with drafts := session.drafts.drop name } draft := by
  obtain ⟨asked, writes, accounts⟩ := inOrder.accounts
  obtain ⟨_, claimed, fresh⟩ := accounts.drafts held
  have tracks := InOrder.tracks accounts
  refine ⟨inOrder.issued held, fun own => ?_, fun own => ?_, fun {other x} found same => ?_⟩
  · rw [own, tracks.id] at claimed
    exact tracks.entries.reserved ▸ claimed
  · rw [own, tracks.id] at fresh
    exact tracks.entries.free fresh
  · rw [Named.find?_drop] at found
    split at found
    · cases found
    · next differs => exact fun sameHandle => differs (accounts.apart found held same sameHandle)

/-- Handing out a draft keeps a session in order, and the draft is loose. -/
theorem allocate (inOrder : session.InOrder) (size : Nat) :
    let now := { session with table := (session.table.allocate size).1 }
    now.InOrder ∧ ∀ draft bytes, (session.table.allocate size).2 = .ok draft →
      now.Loose { draft with bytes } := by
  obtain ⟨asked, writes, accounts⟩ := inOrder.accounts
  have tracks := InOrder.tracks accounts
  have arena := session.table.arena_allocate size
  have now : ArenaSession.Accounts (arenas { session with table := (session.table.allocate size).1 })
      2 (fun number => asked number + if 0 = number then 1 else 0) writes := by
    simp only [arenas, arena]
    exact accounts.ask (tracks.allocate size)
  refine ⟨⟨inOrder.sound.perform (.allocate size) nofun, inOrder.issued, _, _, now⟩, ?_⟩
  intro draft bytes handedOut
  have handedOut : (session.table.arena.allocate size).2 = .ok draft := handedOut
  obtain ⟨few, _, same⟩ := Arena.allocate_ok_iff.mp handedOut
  have index : draft.handle.index.toNat = asked 0 := by
    rw [same, ← tracks.entries.reserved]
    exact Nat.mod_eq_of_lt (Nat.lt_of_lt_of_le few (Nat.sub_le ..))
  have number : draft.arena = 0 := by rw [same, tracks.id]
  refine ⟨⟨_, size, _, handedOut, rfl, rfl⟩, fun _ => ?_, fun _ => ?_, fun held own sameHandle => ?_⟩
  · rw [(InOrder.tracks now).entries.reserved, index]
    exact Nat.lt_succ_self _
  · refine (InOrder.tracks now).entries.free fun written => ?_
    exact absurd (accounts.claimed (by decide) written) (Nat.not_lt.mpr index.ge)
  · obtain ⟨_, claimed, _⟩ := accounts.drafts held
    rw [own.trans number, sameHandle] at claimed
    exact absurd claimed (Nat.not_lt.mpr index.ge)

/-- Inserting a loose draft keeps a session in order. -/
theorem insert (inOrder : session.InOrder) (loose : session.Loose draft) :
    InOrder { session with table := (session.table.insert draft).1 } := by
  obtain ⟨asked, writes, accounts⟩ := inOrder.accounts
  have tracks := InOrder.tracks accounts
  have sound := inOrder.sound.perform (.insert draft) fun other same => by
    rw [← Operation.insert.inj same]
    exact loose.issued
  refine ⟨sound, inOrder.issued, ?_⟩
  have taking := session.table.insert_taking draft
  simp only [arenas, MemTable.arena]
  generalize (session.table.insert draft).1.shelf = shelf at taking ⊢
  generalize (session.table.insert draft).2 = answer at taking
  cases taking with
  | refused failure => exact ⟨asked, writes, accounts⟩
  | @published arena stored answer =>
    have stored : session.table.arena.publish draft = .ok arena := stored
    have own : draft.arena = session.table.arena.id := by
      by_contra foreign
      rw [tracks.publish_foreign (tracks.id ▸ foreign)] at stored
      cases stored
    have number : draft.arena = 0 := own.trans tracks.id
    have fresh : draft.handle.index ∉ (writes 0).map (·.1) := fun written => by
      have taken := tracks.entries.isSome_iff.mpr written
      simp [loose.free own] at taken
    obtain ⟨new, published, tracksNow⟩ := tracks.publish_own number fresh
    obtain rfl := Except.ok.inj (published.symm.trans stored)
    have claimed : draft.handle.index.toNat < asked draft.arena := by
      rw [number, ← tracks.entries.reserved]
      exact loose.claimed own
    rw [← number] at tracksNow
    have written := accounts.write tracksNow claimed loose.apart
    rw [number] at written
    exact ⟨asked, _, written⟩

theorem add (inOrder : session.InOrder) (record : Record) :
    InOrder { session with table := (session.table.add record).1 } := by
  obtain ⟨now, loose⟩ := inOrder.allocate record.size
  simp only [MemTable.add]
  generalize session.table.allocate record.size = outcome at now loose ⊢
  obtain ⟨table, _ | draft⟩ := outcome
  · exact now
  · simp only
    rcases record.write draft.bytes with ⟨bytes, _ | _⟩
    · exact now
    · exact now.insert (loose draft bytes rfl)

theorem addRaw (inOrder : session.InOrder) (entry : Bytes) :
    (session.perform (.addRaw entry)).1.InOrder := by
  obtain ⟨now, loose⟩ := inOrder.allocate entry.length
  simp only [TableSession.perform]
  generalize session.table.allocate entry.length = outcome at now loose ⊢
  obtain ⟨table, _ | draft⟩ := outcome
  · exact now
  · exact now.insert (loose draft entry rfl)

/-- A draft that either arena hands out is kept. -/
theorem keepDraft (inOrder : session.InOrder) (number : Nat) {size : Nat} {name : String}
    {arena : Arena} (found : session.arenas.arenas[number]? = some arena) {now : TableSession}
    (sound : now.table.Sound) (same : now.arenas = { session.arenas with
      arenas := session.arenas.arenas.set number (arena.allocate size).1 }) :
    (now.keepDraft name (arena.allocate size).2).1.InOrder := by
  obtain ⟨asked, writes, accounts⟩ := inOrder.accounts
  have drafts : now.drafts = session.drafts := congrArg ArenaSession.drafts same
  have allocated := accounts.allocate number size name
  simp only [ArenaSession.execute, found] at allocated
  cases handedOut : (arena.allocate size).2 with
  | error failure =>
    rw [handedOut] at allocated
    rw [← same] at allocated
    exact ⟨sound, fun held => inOrder.issued (drafts ▸ held), _, _, allocated⟩
  | ok draft =>
    rw [handedOut] at allocated
    have kept : (now.keepDraft name (.ok draft)).1.arenas
      = { now.arenas with drafts := session.drafts.put name draft } := by rw [← drafts]; rfl
    rw [same] at kept
    have accountsNow : (now.keepDraft name (.ok draft)).1.arenas.Accounts 2
        (fun other => asked other + if number = other then 1 else 0) writes := kept ▸ allocated
    refine ⟨sound, fun {other x} held => ?_, _, _, accountsNow⟩
    simp only [TableSession.keepDraft, Named.find?_put, drafts] at held
    split at held
    · obtain rfl := Option.some.inj held
      exact ⟨arena, size, draft, handedOut, rfl, rfl⟩
    · exact inOrder.issued held

theorem onDraft (inOrder : session.InOrder) (name : String) {change : Draft → Outcome Draft Unit}
    (refills : ∀ draft, ∃ bytes, (change draft).1 = { draft with bytes }) :
    (session.onDraft name change).1.InOrder := by
  simp only [TableSession.onDraft]
  cases held : session.drafts.find? name with
  | none => exact inOrder
  | some draft =>
    obtain ⟨bytes, same⟩ := refills draft
    simp only [same]
    exact inOrder.refill held bytes

/-- Every step keeps a session in order. -/
theorem perform (inOrder : session.InOrder) (command : TableCommand) :
    (session.perform command).1.InOrder := by
  have reads : ∀ operation : Operation, (∀ size, operation ≠ .allocate size) →
      (∀ draft, operation ≠ .insert draft) →
      InOrder { session with table := session.table.perform operation } := fun operation asks keeps =>
    inOrder.withTable
      (inOrder.sound.perform operation fun draft same => absurd same (keeps draft))
      (session.table.shelf_perform asks keeps)
  cases command with
  | add record => exact inOrder.add record
  | addRaw entry => exact inOrder.addRaw entry
  | allocate name size =>
    refine inOrder.keepDraft 0 rfl (inOrder.allocate size).1.sound ?_
    exact congrArg (fun arena => (⟨[arena, session.otherArena], session.drafts⟩ : ArenaSession))
      (session.table.arena_allocate size)
  | allocateElsewhere name size => exact inOrder.keepDraft 1 rfl inOrder.sound rfl
  | encode name record =>
    exact inOrder.onDraft name fun draft => ⟨(record.write draft.bytes).1, rfl⟩
  | fill name bytes =>
    refine inOrder.onDraft name fun draft => ?_
    by_cases fits : bytes.length = draft.bytes.length
    · exact ⟨bytes, by simp only [Draft.fill, fits, if_true]⟩
    · exact ⟨draft.bytes, by simp only [Draft.fill, fits, if_false]⟩
  | insert name =>
    simp only [TableSession.perform]
    cases held : session.drafts.find? name with
    | none => exact inOrder
    | some draft => exact (inOrder.drop name).insert (inOrder.loose held)
  | discard name =>
    simp only [TableSession.perform]
    cases session.drafts.find? name with
    | none => exact inOrder
    | some draft => exact inOrder.drop name
  | has key =>
    simp only [TableSession.perform]
    cases key.encode with
    | error failure => exact inOrder
    | ok internalKey => exact reads (.contains internalKey) (by simp) (by simp)
  | hasRaw internalKey => exact reads (.contains internalKey) (by simp) (by simp)
  | get userKey sequence limit =>
    simp only [TableSession.perform]
    cases LookupKey.of userKey sequence with
    | error failure => exact inOrder
    | ok key => exact reads (.get key _) (by simp) (by simp)
  | scan | scanBackward => exact reads (.openCursor .all) (by simp) (by simp)
  | openCursor name range =>
    have opened := reads (.openCursor range) (by simp) (by simp)
    simp only [TableSession.perform]
    simp only [MemTable.perform] at opened
    generalize session.table.openCursor range = outcome at opened ⊢
    obtain ⟨table, _ | cursor⟩ := outcome
    · exact opened
    · exact ⟨opened.sound, opened.issued, opened.accounts⟩
  | cursor name step =>
    simp only [TableSession.perform]
    cases session.cursors.find? name with
    | none => exact inOrder
    | some cursor => exact ⟨inOrder.sound, inOrder.issued, inOrder.accounts⟩
  | close => exact reads .close (by simp) (by simp)
  | memory | consulted => exact ⟨inOrder.sound, inOrder.issued, inOrder.accounts⟩
  | isReadOnly | arenaSize | arenaMemory | arenaEntry | identity | bucketCount | cuckooState
    | entriesForFlush => exact inOrder

theorem execute (inOrder : session.InOrder) (command : TableCommand) :
    (session.execute command).1.InOrder := by
  have performed := inOrder.perform command
  exact ⟨performed.sound, performed.issued, performed.accounts⟩

theorem run (inOrder : session.InOrder) (commands : List TableCommand) :
    (session.run commands).InOrder := by
  induction commands generalizing session with
  | nil => exact inOrder
  | cons command rest ih => exact ih (inOrder.execute command)

end InOrder

end TableSession

end WriteBuffer
