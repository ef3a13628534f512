import Mathlib
import WriteBuffer.Proofs.SparedInserts
import WriteBuffer.Proofs.Steadiness

/-!
Sessions on which nothing goes wrong. The steps that are meant (`TableCommand.Proper`) add records that
fit, read with keys that have tags, and open and move cursors of tables that have an order. Each keeps
a session steady (`TableSession.Steady.execute`), so a whole run does (`TableSession.Steady.run`), and
as long as there is a handle left, a step fails only where it is meant to: a record that repeats a key,
a table that takes nothing more, or a cursor that is at no entry (`TableSession.Steady.safe`).
-/
namespace WriteBuffer

variable {order : KeyOrder}

/-- A record whose lengths and sequence number fit into an entry. -/
structure Record.Proper (record : Record) : Prop where
  fits : record.Fits
  low : record.sequence ≤ maxSequence

namespace Record.Proper

variable {record : Record}

theorem allocatable (proper : record.Proper) : requireAllocatable record.size 1 = .ok () := by
  have key : record.userKey.length + 8 < 4294967296 := proper.fits.key
  have value : record.value.length < 4294967296 := proper.fits.value
  refine if_pos ?_
  simp only [Record.size, entrySize, lengthSize, tagSize, allocationLimit, UInt64.size]
  omega

theorem written (proper : record.Proper) : ∃ entry,
    record.write (List.replicate record.size 0) = (entry, .ok ()) ∧ HasKey HasTag entry := by
  have right : (List.replicate record.size (0 : UInt8)).length = record.size :=
    List.length_replicate ..
  cases done : record.write (List.replicate record.size 0) with
  | mk entry answer =>
    obtain rfl : answer = .ok () := by
      have succeeds := Record.write_isOk_iff.mpr ⟨right, proper.low⟩
      rwa [done] at succeeds
    exact ⟨entry, rfl, WellFormed.hasTag
      ⟨record, (Record.decode_eq_ok_iff right).mpr ⟨proper.fits, done⟩⟩⟩

end Record.Proper

/-- An operation leaves the entries of a table alone. -/
def Operation.Looks : Operation → Prop
  | contains _ | get .. | openCursor _ | close => True
  | allocate _ | insert _ => False

namespace MemTable

variable {table : MemTable} {record : Record} {failure : Failure}

/-- Operations that insert drafts that were handed out and add only entries with keys. -/
structure Harmless (table : MemTable) (operations : List Operation) : Prop where
  issued : ∀ draft, .insert draft ∈ operations → draft.Issued
  hasKey : ∀ entry ∈ accepted table operations, HasKey HasTag entry

theorem harmless_single (table : MemTable) {operation : Operation}
    (inserts : ∀ draft, operation ≠ .insert draft) : table.Harmless [operation] := by
  refine ⟨fun draft member => absurd (List.mem_singleton.mp member).symm (inserts draft), ?_⟩
  intro entry member
  cases operation with
  | insert draft => exact absurd rfl (inserts draft)
  | allocate | contains | get | openCursor | close => cases member

/-- A record that fits gets a handle or none is left, and then its entry is inserted. -/
theorem add_cases (table : MemTable) (proper : record.Proper) :
    (¬ table.arena.entries.reserved < UInt32.size - 1 ∧
      (table.add record).1 = (table.allocate record.size).1) ∨
    ∃ blank entry, (table.arena.allocate record.size).2 = .ok blank ∧ record.encode = .ok entry ∧
      HasKey HasTag entry ∧
      let inserted := (table.allocate record.size).1.insert { blank with bytes := entry }
      table.add record = (inserted.1, inserted.2.map fun _ => blank.handle) := by
  cases outcome : table.allocate record.size with
  | mk after allocated =>
    have same : (table.arena.allocate record.size).2 = allocated := congrArg Prod.snd outcome
    cases allocated with
    | error failure =>
      refine .inl ⟨fun few => ?_, by simp only [add, outcome]⟩
      cases same.symm.trans (Arena.allocate_ok_iff.mpr ⟨few, proper.allocatable, rfl⟩)
    | ok blank =>
      obtain ⟨_, _, zeros⟩ := Arena.allocate_ok_iff.mp same
      obtain ⟨entry, written, hasKey⟩ := proper.written
      refine .inr ⟨blank, entry, same, by rw [Record.encode, written]; rfl, hasKey, ?_⟩
      have bytes : blank.bytes = List.replicate record.size 0 := congrArg Draft.bytes zeros
      simp only [add, outcome, bytes, written]

theorem exists_run_add_proper (table : MemTable) (proper : record.Proper) :
    ∃ operations, (table.add record).1 = table.run operations ∧ table.Harmless operations := by
  rcases table.add_cases proper with ⟨_, left⟩ | ⟨blank, entry, handedOut, _, hasKey, done⟩
  · exact ⟨[.allocate record.size], left, table.harmless_single fun draft same => by cases same⟩
  · refine ⟨[.allocate record.size, .insert { blank with bytes := entry }], by rw [done]; rfl, ?_, ?_⟩
    · intro draft member
      obtain rfl : draft = { blank with bytes := entry } := by simpa using member
      exact ⟨_, _, blank, handedOut, rfl, rfl⟩
    · intro other member
      simp only [accepted, added, List.nil_append, List.append_nil] at member
      exact gained_eq member ▸ hasKey

/-- The entries of an arena stay packed when a record is added. -/
theorem packed_add (packed : table.arena.entries.Packed) (proper : record.Proper) :
    (table.add record).1.arena.entries.Packed := by
  have allocated : (table.allocate record.size).1.arena.entries.Packed := by
    rw [arena_allocate]
    exact fun index filled => Nat.lt_succ_of_lt (packed index filled)
  rcases table.add_cases proper with ⟨_, left⟩ | ⟨blank, entry, handedOut, _, _, done⟩
  · exact left ▸ allocated
  · obtain ⟨new, published, packedNow, _⟩ := Arena.publish_allocated packed handedOut entry
    have taking := insert_taking (table.allocate record.size).1 { blank with bytes := entry }
    simp only [done, arena]
    generalize (table.allocate record.size).1.insert { blank with bytes := entry } = inserted at taking
    obtain ⟨now, answer⟩ := inserted
    generalize now.shelf = shelf at taking
    cases taking with
    | refused => exact allocated
    | published stored =>
      rw [← arena_allocate] at published
      obtain rfl := Except.ok.inj (published.symm.trans stored)
      exact packedNow

theorem MayRefuse.of_allocate {size : Nat} {entry : Bytes}
    (refuses : (table.allocate size).1.MayRefuse entry failure) : table.MayRefuse entry failure := by
  cases refuses with
  | duplicate place repeats =>
    refine .duplicate place ?_
    cases table <;> exact repeats
  | readOnly closed =>
    cases table <;> exact .readOnly closed
  | sorted same sorted =>
    cases table with
    | vector table =>
      cases same
      exact .sorted rfl sorted
    | skipList | hashedSkipLists | hashedChains | cuckoo => cases same

/-- A record that fits is refused for the reasons that are meant only, as long as a handle is left. -/
theorem Steady.add_refused (steady : table.Steady order) (total : order.TotalOn HasTag)
    (sound : table.Sound) (packed : table.arena.entries.Packed)
    (few : table.arena.entries.reserved < UInt32.size - 1) (proper : record.Proper)
    (refused : (table.add record).2 = .error failure) :
    ∃ entry, record.encode = .ok entry ∧ table.MayRefuse entry failure := by
  rcases table.add_cases proper with ⟨full, _⟩ | ⟨blank, entry, handedOut, encoded, hasKey, done⟩
  · exact absurd few full
  · have issued : Draft.Issued { blank with bytes := entry } := ⟨_, _, blank, handedOut, rfl, rfl⟩
    obtain ⟨new, published, _⟩ := Arena.publish_allocated packed handedOut entry
    rw [← arena_allocate] at published
    have waiting := steady.perform total sound (.allocate record.size) (fun _ same => by cases same)
      fun _ member => by cases member
    have soundNow := sound.perform (.allocate record.size) fun _ same => by cases same
    rw [done] at refused
    cases answer : ((table.allocate record.size).1.insert { blank with bytes := entry }).2 with
    | ok taken => simp [answer, Except.map] at refused
    | error reason =>
      obtain rfl : reason = failure := by simpa [answer, Except.map] using refused
      rcases waiting.insert_refused total soundNow issued.ne_nowhere hasKey answer with
        refuses | unpublished
      · exact ⟨entry, encoded, refuses.of_allocate⟩
      · cases published.symm.trans unpublished

end MemTable

/-- The steps that are meant for a table of a kind: records that fit are added, keys that are read have
tags, and cursors are opened only where there is an order. Drafts are not handled by hand. -/
def TableCommand.Proper (kind : TableKind) : TableCommand → Prop
  | add record => record.Proper
  | has key => key.sequence ≤ maxSequence
  | hasRaw internalKey => HasTag internalKey
  | get _ sequence _ => sequence ≤ maxSequence
  | scan | scanBackward | openCursor .. => kind ≠ .cuckoo
  | cursor _ command => command.Proper
  | close | isReadOnly | arenaSize | arenaMemory | memory | consulted | identity | bucketCount
  | cuckooState => True
  | addRaw _ | allocate .. | allocateElsewhere .. | encode .. | fill .. | insert _ | discard _
  | arenaEntry _ | entriesForFlush => False

namespace TableSession

variable {session : TableSession} {command : TableCommand} {failure : Failure}

/-- The failures that are meant: a record whose entry the table may refuse, and a cursor that is at no
entry. -/
inductive MayFail (session : TableSession) : TableCommand → Failure → Prop
  | add {record : Record} {entry : Bytes} {failure : Failure} (encoded : record.encode = .ok entry)
    (refuses : session.table.MayRefuse entry failure) : MayFail session (.add record) failure
  | cursor {name : String} {command : CursorCommand} {cursor : TableCursor}
    (found : session.cursors.find? name = some cursor)
    (nowhere : session.table.moves.valid cursor = false) :
    MayFail session (.cursor name command) .unpositioned

/-- A session with a steady table, with cursors that are alive. -/
structure Steady (session : TableSession) (order : KeyOrder) : Prop where
  sound : session.table.Sound
  packed : session.table.arena.entries.Packed
  table : session.table.Steady order
  cursors : ∀ {name cursor}, session.cursors.find? name = some cursor →
    session.table.Live order cursor

/-- In a session nothing goes wrong: a step that is meant fails only where it is meant to, and every
lookup shows something. -/
structure Safe (session : TableSession) : Prop where
  fails : ∀ command failure, command.Proper session.table.kind →
    (session.execute command).2 = .error (.failed failure) → session.MayFail command failure
  shows : ∀ userKey sequence goesOn, sequence ≤ maxSequence → ∃ key shown,
    LookupKey.of userKey sequence = .ok key ∧ (session.table.get key goesOn).2 = .ok shown

namespace Steady

variable (steady : session.Steady order) (total : order.TotalOn HasTag)
include steady total

theorem operate {operations : List Operation} (harmless : session.table.Harmless operations)
    {table : MemTable} (ran : table = session.table.run operations)
    (packed : table.arena.entries.Packed) : Steady { session with table } order where
  sound := ran ▸ steady.sound.run operations harmless.issued
  packed := packed
  table := ran ▸ steady.table.run total harmless.hasKey steady.sound harmless.issued
  cursors := by
    intro name cursor found
    exact ran ▸ (steady.cursors found).run total harmless.hasKey

theorem look (operation : Operation) (looks : operation.Looks) :
    Steady { session with table := session.table.perform operation } order := by
  have allocates : ∀ size, operation ≠ .allocate size := by
    rintro size rfl
    exact looks
  have inserts : ∀ draft, operation ≠ .insert draft := by
    rintro draft rfl
    exact looks
  refine steady.operate total (session.table.harmless_single inserts) rfl ?_
  rw [MemTable.arena, MemTable.shelf_perform _ allocates inserts]
  exact steady.packed

omit total in
theorem keep {cursor : TableCursor} (live : session.table.Live order cursor) (name : String) :
    Steady { session with cursors := session.cursors.put name cursor } order where
  sound := steady.sound
  packed := steady.packed
  table := steady.table
  cursors := by
    intro other held found
    rw [Named.find?_put] at found
    split at found
    · exact Option.some.inj found ▸ live
    · exact steady.cursors found

/-- Every step that is meant keeps a session steady. -/
theorem perform (proper : command.Proper session.table.kind) :
    (session.perform command).1.Steady order := by
  have same : ∀ memoryBefore consulted, Steady { session with memoryBefore, consulted } order :=
    fun _ _ => ⟨steady.sound, steady.packed, steady.table, steady.cursors⟩
  cases command with
  | add record =>
    obtain ⟨operations, ran, harmless⟩ := session.table.exists_run_add_proper proper
    exact steady.operate total harmless ran (session.table.packed_add steady.packed proper)
  | has key =>
    simp only [TableSession.perform]
    cases key.encode with
    | error failure => exact steady
    | ok internalKey => exact steady.look total (.contains internalKey) trivial
  | hasRaw internalKey => exact steady.look total (.contains internalKey) trivial
  | get userKey sequence limit =>
    simp only [TableSession.perform]
    cases LookupKey.of userKey sequence with
    | error failure => exact steady
    | ok key => exact steady.look total (.get key (upTo limit)) trivial
  | scan | scanBackward => exact steady.look total (.openCursor .all) trivial
  | openCursor name range =>
    obtain ⟨cursor, opened, live⟩ := steady.table.openCursor_ok total proper range
    have reading := steady.look total (.openCursor range) trivial
    simp only [TableSession.perform]
    rw [MemTable.perform] at reading
    generalize session.table.openCursor range = outcome at opened live reading
    obtain ⟨now, answer⟩ := outcome
    obtain rfl : answer = .ok cursor := opened
    exact reading.keep live name
  | cursor name command =>
    simp only [TableSession.perform]
    cases found : session.cursors.find? name with
    | none => exact steady
    | some cursor =>
      exact steady.keep
        ((steady.table.unfailing total).execute (steady.cursors found) proper).1 name
  | close => exact steady.look total .close trivial
  | memory | consulted | isReadOnly | arenaSize | arenaMemory | identity | bucketCount | cuckooState =>
    exact same _ _
  | addRaw | allocate | allocateElsewhere | encode | fill | insert | discard | arenaEntry
  | entriesForFlush => exact proper.elim

theorem execute (proper : command.Proper session.table.kind) :
    (session.execute command).1.Steady order := by
  obtain ⟨sound, packed, table, cursors⟩ := steady.perform total proper
  exact ⟨sound, packed, table, cursors⟩

/-- A session of steps that are meant keeps steady. -/
theorem run {commands : List TableCommand}
    (proper : ∀ command ∈ commands, command.Proper session.table.kind) :
    (session.run commands).Steady order ∧ (session.run commands).table.kind = session.table.kind := by
  induction commands generalizing session with
  | nil => exact ⟨steady, rfl⟩
  | cons command rest ih =>
    obtain ⟨first, later⟩ := List.forall_mem_cons.mp proper
    have kind : (session.execute command).1.table.kind = session.table.kind := by
      obtain ⟨operations, ran⟩ := session.exists_run command
      exact (congrArg MemTable.kind ran).trans (MemTable.kind_run ..)
    have step := ih (steady.execute total first) (kind.symm ▸ later)
    exact ⟨step.1, step.2.trans kind⟩

/-- A step that is meant fails only where it is meant to. -/
theorem mayFail (few : session.table.arena.entries.reserved < UInt32.size - 1)
    (proper : command.Proper session.table.kind)
    (failed : (session.perform command).2 = .error (.failed failure)) :
    session.MayFail command failure := by
  cases command with
  | add record =>
    obtain ⟨entry, encoded, refuses⟩ := steady.table.add_refused total steady.sound steady.packed few
      proper (error_of_ofFailure failed)
    exact .add encoded refuses
  | has key =>
    obtain ⟨internalKey, encoded⟩ := InternalKey.encode_ok proper
    obtain ⟨answer, found⟩ :=
      steady.table.contains_ok total (InternalKey.encode_hasTag encoded)
    simp only [TableSession.perform, encoded, took, found] at failed
    cases failed
  | hasRaw internalKey =>
    obtain ⟨answer, found⟩ := steady.table.contains_ok total proper
    simp only [TableSession.perform, took, found] at failed
    cases failed
  | get userKey sequence limit =>
    obtain ⟨key, shown, looked, found⟩ :=
      steady.table.lookup_ok total steady.sound userKey proper (upTo limit)
    simp only [TableSession.perform, looked, took, found] at failed
    cases failed
  | scan =>
    obtain ⟨⟨entries, walked⟩, _⟩ := steady.table.scan_ok total steady.sound proper
    simp only [TableSession.perform, took, walked] at failed
    cases failed
  | scanBackward =>
    obtain ⟨_, entries, walked⟩ := steady.table.scan_ok total steady.sound proper
    simp only [TableSession.perform, took, walked] at failed
    cases failed
  | openCursor name range =>
    obtain ⟨cursor, opened, _⟩ := steady.table.openCursor_ok total proper range
    simp only [TableSession.perform] at failed
    generalize session.table.openCursor range = outcome at opened failed
    obtain ⟨now, answer⟩ := outcome
    obtain rfl : answer = .ok cursor := opened
    cases failed
  | cursor name command =>
    simp only [TableSession.perform] at failed
    cases found : session.cursors.find? name with
    | none => simp [found] at failed
    | some cursor =>
      simp only [found] at failed
      obtain ⟨rfl, nowhere⟩ := ((steady.table.unfailing total).execute (steady.cursors found)
        proper).2 failure (error_of_ofFailure failed)
      exact .cursor found nowhere
  | close =>
    simp only [TableSession.perform, took, steady.table.close_ok total] at failed
    cases failed
  | memory | consulted | isReadOnly | arenaSize | arenaMemory | identity => cases failed
  | bucketCount =>
    simp only [TableSession.perform] at failed
    split at failed <;> cases failed
  | cuckooState =>
    simp only [TableSession.perform] at failed
    split at failed <;> cases failed
  | addRaw | allocate | allocateElsewhere | encode | fill | insert | discard | arenaEntry
  | entriesForFlush => exact proper.elim

/-- In a steady session with a handle left nothing goes wrong. -/
theorem safe (few : session.table.arena.entries.reserved < UInt32.size - 1) : session.Safe where
  fails _ _ proper failed := steady.mayFail total few proper failed
  shows userKey _ goesOn low :=
    steady.table.lookup_ok total steady.sound userKey low goesOn

end Steady

end TableSession

end WriteBuffer
