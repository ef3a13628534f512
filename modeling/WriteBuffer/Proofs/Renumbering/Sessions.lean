import Mathlib
import WriteBuffer.Proofs.Renumbering.Tables
import WriteBuffer.Proofs.Table.LeftoverLists
import WriteBuffer.Proofs.TableSessions

/-!
Sessions with tables that agree up to the numbers of handles and to the list that a failed insert left
(`TableSession.Spared`). Every step keeps them so and is answered the same up to the numbers, unless it
is one of a cursor that goes along that list in one session and over nothing in the other
(`TableSession.Spared.perform`).
-/
namespace WriteBuffer

variable {renumbering : Renumbering} {left : Option Nat} {draft : Draft}

/-! ### Tables -/

namespace MemTable

variable {a b : MemTable}

/-- Tables agree up to the numbers of handles, and to a list without nodes in a bucket that has no list
in the first. -/
def Spared (renumbering : Renumbering) (left : Option Nat) : MemTable → MemTable → Prop :=
  Relation.Comp (Renumbered renumbering) (Leaves left)

namespace Spared

theorem arena (spared : a.Spared renumbering left b) :
    a.arena.Renumbered renumbering b.arena := by
  obtain ⟨middle, renumbered, leaves⟩ := spared
  exact leaves.alike.sameAnswers.arena ▸ renumbered.arena

theorem isReadOnly (spared : a.Spared renumbering left b) : b.isReadOnly = a.isReadOnly := by
  obtain ⟨middle, renumbered, leaves⟩ := spared
  refine leaves.alike.sameAnswers.isReadOnly.trans ?_
  cases renumbered with
  | hashedSkipLists renumbered | hashedChains renumbered =>
    exact congrArg Gate.readOnly renumbered.gate

theorem buckets (spared : a.Spared renumbering left b) :
    (∃ s t, a = hashedSkipLists s ∧ b = hashedSkipLists t) ∨
      ∃ s t, a = hashedChains s ∧ b = hashedChains t := by
  obtain ⟨middle, renumbered, leaves⟩ := spared
  cases renumbered with
  | hashedSkipLists => cases leaves <;> exact .inl ⟨_, _, rfl, rfl⟩
  | hashedChains => cases leaves; exact .inr ⟨_, _, rfl, rfl⟩

theorem bucketCount? (spared : a.Spared renumbering left b) : b.bucketCount? = a.bucketCount? := by
  obtain ⟨middle, renumbered, leaves⟩ := spared
  have first : middle.bucketCount? = a.bucketCount? := by
    cases renumbered with
    | hashedSkipLists renumbered | hashedChains renumbered =>
      simp only [MemTable.bucketCount?]
      rw [renumbered.index.index]
  refine Eq.trans ?_ first
  cases leaves with
  | same => rfl
  | hashedSkipLists leaves => exact congrArg some leaves.size

theorem contains (spared : a.Spared renumbering left b) (internalKey : Bytes) :
    Agree (Spared renumbering left) (a.contains internalKey) (b.contains internalKey) := by
  obtain ⟨middle, renumbered, leaves⟩ := spared
  exact (renumbered.contains internalKey).comp (leaves.contains internalKey)

theorem get (spared : a.Spared renumbering left b) (key : LookupKey) (goesOn : List Bytes → Bool) :
    Agree (Spared renumbering left) (a.get key goesOn) (b.get key goesOn) := by
  obtain ⟨middle, renumbered, leaves⟩ := spared
  exact (renumbered.get key goesOn).comp (leaves.get key goesOn)

theorem scan (spared : a.Spared renumbering left b) :
    Agree (Spared renumbering left) a.scan b.scan := by
  obtain ⟨middle, renumbered, leaves⟩ := spared
  exact renumbered.scan.comp leaves.scan

theorem scanBackward (spared : a.Spared renumbering left b) :
    Agree (Spared renumbering left) a.scanBackward b.scanBackward := by
  obtain ⟨middle, renumbered, leaves⟩ := spared
  exact renumbered.scanBackward.comp leaves.scanBackward

theorem close (spared : a.Spared renumbering left b) :
    Agree (Spared renumbering left) a.close b.close := by
  obtain ⟨middle, renumbered, leaves⟩ := spared
  exact renumbered.close.comp leaves.close

theorem insert (spared : a.Spared renumbering left b)
    (free : draft.arena = a.arena.id → a.arena.entries.get? draft.handle.index = none) :
    Agree (Spared renumbering left) (a.insert draft)
      (b.insert (draft.renumber renumbering a.arena.id)) := by
  obtain ⟨middle, renumbered, leaves⟩ := spared
  exact (renumbered.insert free).comp (leaves.insert _)

theorem allocated (spared : a.Spared renumbering left b) (length : Nat) :
    (a.allocate length).1.Spared renumbering left (b.allocate length).1 := by
  obtain ⟨middle, renumbered, leaves⟩ := spared
  exact ⟨_, renumbered.allocated length, (leaves.allocate length).states⟩

theorem allocate (spared : a.Spared renumbering left b)
    (lasts : renumbering.count = 0 ∨ b.arena.entries.reserved < UInt32.size - 1) (length : Nat) :
    (b.allocate length).2 = (a.allocate length).2.map (Draft.renumber renumbering a.arena.id) :=
  spared.arena.allocate lasts length

theorem insert_allocated (spared : a.Spared renumbering left b) (packed : a.arena.entries.Packed)
    {length : Nat} (handedOut : (a.allocate length).2 = .ok draft) (bytes : Bytes) :
    Agree (Spared renumbering left) ((a.allocate length).1.insert { draft with bytes })
      ((b.allocate length).1.insert { draft.renumber renumbering a.arena.id with bytes }) := by
  obtain ⟨middle, renumbered, leaves⟩ := spared
  exact (renumbered.insert_allocated packed handedOut bytes).comp
    ((leaves.allocate length).states.insert _)

theorem add (spared : a.Spared renumbering left b)
    (lasts : renumbering.count = 0 ∨ b.arena.entries.reserved < UInt32.size - 1)
    (packed : a.arena.entries.Packed) (record : Record) :
    (a.add record).1.Spared renumbering left (b.add record).1 ∧
      (b.add record).2 = (a.add record).2.map renumbering.number := by
  obtain ⟨middle, renumbered, leaves⟩ := spared
  rw [leaves.alike.sameAnswers.arena] at lasts
  obtain ⟨first, answer⟩ := renumbered.add lasts packed record
  obtain ⟨same, second⟩ := leaves.add record
  exact ⟨⟨_, first, second⟩, same.trans answer⟩

end Spared

end MemTable

/-! ### Cursors -/

namespace TableCursor

/-- Cursors are the same, but for one along the list of a bucket that has nothing to go along in the
first table. -/
inductive Leaves (left : Option Nat) : TableCursor → TableCursor → Prop
  | same (cursor : TableCursor) : Leaves left cursor cursor
  | list {bucket : Nat} (member : bucket ∈ left) (place : Option NodeId) :
    Leaves left .nothing (.list { bucket, place })

/-- Cursors are the same up to the numbers in runs, but for one along the list that was left. -/
def Spared (renumbering : Renumbering) (left : Option Nat) (s : Shelf) :
    TableCursor → TableCursor → Prop :=
  Relation.Comp (Renumbered renumbering s) (Leaves left)

end TableCursor

namespace MemTable

variable {a b : MemTable} {c d : TableCursor}

theorem execute_nothing (table : MemTable) (command : CursorCommand) :
    (table.moves.execute .nothing command).1 = .nothing := by
  obtain ⟨rule, lists, openBucket, moves⟩ := table.moves_eq
  rw [moves]
  exact congrArg Prod.fst ((TableCursor.carries_nothing _ _ _).execute () command)

theorem execute_list (table : MemTable) (bucket : Nat) (place : Option NodeId)
    (command : CursorCommand) :
    ∃ other, (table.moves.execute (.list { bucket, place }) command).1
      = .list { bucket, place := other } := by
  obtain ⟨rule, lists, openBucket, moves⟩ := table.moves_eq
  have along := (BucketCursor.carries lists bucket).execute place command
  refine ⟨((lists bucket).execute place command).1, ?_⟩
  rw [moves]
  refine (congrArg Prod.fst ((TableCursor.carries_list _ _ _).execute _ command)).trans ?_
  exact congrArg (fun outcome => TableCursor.list outcome.1) along

namespace Spared

/-- Cursors are opened alike, or over nothing in the first table and in the second along the list that
was left. -/
theorem openCursor (spared : a.Spared renumbering left b) (range : Range) :
    (a.openCursor range).1.Spared renumbering left (b.openCursor range).1 ∧
      Both (TableCursor.Spared renumbering left a.shelf) (a.openCursor range).2
        (b.openCursor range).2 := by
  obtain ⟨middle, renumbered, leaves⟩ := spared
  obtain ⟨sameA, sameMiddle⟩ := renumbered.openCursor_table range
  obtain ⟨tables, opened⟩ := leaves.openCursor range
  rw [sameMiddle] at tables
  refine ⟨⟨middle, sameA.symm ▸ renumbered, tables⟩, ?_⟩
  have first := renumbered.openCursor range
  rcases opened with same | ⟨bucket, member, nothing, list⟩
  · rw [same]
    exact first.mono fun _ cursor related => ⟨cursor, related, .same cursor⟩
  · rw [nothing] at first
    rw [list]
    rcases first.cases with ⟨cursor, _, opened, same, related⟩ | ⟨_, _, failed⟩
    · obtain rfl := Except.ok.inj same
      rw [opened]
      exact ⟨.nothing, related, .list member none⟩
    · cases failed

/-- A step of cursors leaves such cursors behind. It is answered the same, unless one is over nothing and
the other along the list that was left. -/
theorem execute (spared : a.Spared renumbering left b)
    (related : c.Spared renumbering left a.shelf d) (command : CursorCommand) :
    (a.moves.execute c command).1.Spared renumbering left a.shelf (b.moves.execute d command).1 ∧
      ((b.moves.execute d command).2 = (a.moves.execute c command).2 ∨
        c = .nothing ∧ ∃ bucket ∈ left, ∃ place, d = .list { bucket, place }) := by
  obtain ⟨middle, renumbered, leaves⟩ := spared
  obtain ⟨e, first, second⟩ := related
  obtain ⟨states, answer⟩ := renumbered.bisimilar.execute first (.inr renumbered.span)
  rw [leaves.moves_eq]
  cases second with
  | same => exact ⟨⟨_, states, .same _⟩, .inl answer.symm⟩
  | list member place =>
    cases first
    obtain ⟨other, stays⟩ := middle.execute_list _ place command
    rw [a.execute_nothing, stays]
    exact ⟨⟨.nothing, .nothing, .list member other⟩, .inr ⟨rfl, _, member, place, rfl⟩⟩

end Spared

end MemTable

/-! ### Sessions -/

namespace TableCommand

/-- Whether a step asks for what a session keeps account of: memory, and whether the order was
consulted; or for the entry of a handle, which has another number in the other session. -/
def IsAccount : TableCommand → Bool
  | memory | consulted | arenaMemory | arenaEntry _ => true
  | _ => false

/-- An answer with the other number of a handle of the table's own arena. -/
def renumber (number : Handle → Handle) : TableCommand → TableReply → TableReply
  | allocateElsewhere .., reply => reply
  | _, .handle handle => .handle (number handle)
  | _, reply => reply

end TableCommand

namespace TableSession

variable {a b : TableSession} {command : TableCommand}

/-- Two sessions agree up to the numbers of handles, to a list in a bucket that has none in the first,
and to cursors that were opened over that bucket. What they keep account of is left aside. -/
structure Spared (renumbering : Renumbering) (left : Option Nat) (a b : TableSession) : Prop where
  table : a.table.Spared renumbering left b.table
  otherArena : b.otherArena = a.otherArena
  drafts : ∀ name, b.drafts.find? name = (a.drafts.find? name).map (Draft.renumber renumbering 0)
  cursors : ∀ name, Option.Rel (TableCursor.Spared renumbering left a.table.shelf)
    (a.cursors.find? name) (b.cursors.find? name)

/-- A step is that of a cursor over nothing in the first session, which goes along the list of a bucket
in the second. -/
def Tells (left : Option Nat) (a b : TableSession) (command : TableCommand) : Prop :=
  ∃ bucket ∈ left, ∃ name step place, command = .cursor name step ∧
    a.cursors.find? name = some .nothing ∧ b.cursors.find? name = some (.list { bucket, place })

/-- Two sessions were answered a step the same up to the numbers of handles, and still agree. -/
structure Alike (renumbering : Renumbering) (left : Option Nat) (command : TableCommand)
    (x y : Stepped TableSession TableReply) : Prop where
  reply : y.2 = x.2.map (command.renumber renumbering.number)
  sessions : x.1.Spared renumbering left y.1

namespace Spared

theorem withTable (spared : a.Spared renumbering left b) {s t : MemTable}
    (tables : s.Spared renumbering left t) (grows : a.table.shelf.Extends s.shelf) :
    Spared renumbering left { a with table := s } { b with table := t } where
  table := tables
  otherArena := spared.otherArena
  drafts := spared.drafts
  cursors name := by
    have pair := spared.cursors name
    simp only
    generalize a.cursors.find? name = first at pair ⊢
    generalize b.cursors.find? name = second at pair ⊢
    rcases pair with ⟨⟨cursor, renumbered, leaves⟩⟩ | _
    · exact .some ⟨cursor, renumbered.grows grows.keeps, leaves⟩
    · exact .none

theorem putDraft (spared : a.Spared renumbering left b) (name : String) (draft : Draft) :
    Spared renumbering left { a with drafts := a.drafts.put name draft }
      { b with drafts := b.drafts.put name (draft.renumber renumbering 0) } := by
  refine ⟨spared.table, spared.otherArena, fun other => ?_, spared.cursors⟩
  rw [Named.find?_put, Named.find?_put, spared.drafts]
  split <;> rfl

theorem dropDraft (spared : a.Spared renumbering left b) (name : String) :
    Spared renumbering left { a with drafts := a.drafts.drop name }
      { b with drafts := b.drafts.drop name } := by
  refine ⟨spared.table, spared.otherArena, fun other => ?_, spared.cursors⟩
  rw [Named.find?_drop, Named.find?_drop, spared.drafts]
  split <;> rfl

theorem putCursor (spared : a.Spared renumbering left b) (name : String) {c d : TableCursor}
    (related : c.Spared renumbering left a.table.shelf d) :
    Spared renumbering left { a with cursors := a.cursors.put name c }
      { b with cursors := b.cursors.put name d } := by
  refine ⟨spared.table, spared.otherArena, spared.drafts, fun other => ?_⟩
  rw [Named.find?_put, Named.find?_put]
  split
  · exact .some related
  · exact spared.cursors other

theorem took (spared : a.Spared renumbering left b) {α : Type} {reply : α → TableReply}
    {x y : Outcome MemTable α} (agree : WriteBuffer.Agree (MemTable.Spared renumbering left) x y)
    (grows : a.table.shelf.Extends x.1.shelf)
    (plain : ∀ answer, command.renumber renumbering.number (reply answer) = reply answer) :
    Alike renumbering left command (a.took reply x) (b.took reply y) := by
  refine ⟨?_, spared.withTable agree.states grows⟩
  simp only [TableSession.took, agree.answer]
  cases x.2 with
  | error failure => rfl
  | ok answer => exact congrArg Except.ok (plain answer).symm

theorem keepDraft (spared : a.Spared renumbering left b) (name : String)
    {allocated other : Except Failure Draft}
    (same : other = allocated.map (Draft.renumber renumbering 0))
    (replies : ∀ draft, allocated = .ok draft → command.renumber renumbering.number
      (.handle draft.handle) = .handle (draft.renumber renumbering 0).handle) :
    Alike renumbering left command (a.keepDraft name allocated) (b.keepDraft name other) := by
  subst same
  cases allocated with
  | error failure => exact ⟨rfl, spared⟩
  | ok draft => exact ⟨congrArg Except.ok (replies draft rfl).symm, spared.putDraft name draft⟩

theorem onDraft (spared : a.Spared renumbering left b) (name : String)
    {change : Draft → Outcome Draft Unit} (commutes : ∀ draft, change (draft.renumber renumbering 0)
      = (change draft).onState (Draft.renumber renumbering 0))
    (plain : command.renumber renumbering.number .done = .done) :
    Alike renumbering left command (a.onDraft name change) (b.onDraft name change) := by
  simp only [TableSession.onDraft, spared.drafts]
  cases a.drafts.find? name with
  | none => exact ⟨rfl, spared⟩
  | some draft =>
    simp only [Option.map_some, commutes]
    refine ⟨?_, spared.putDraft name _⟩
    simp only [Outcome.onState]
    cases (change draft).2 with
    | error failure => rfl
    | ok done => exact congrArg Except.ok plain.symm

/-- Cursors are opened alike. -/
theorem openCursor (spared : a.Spared renumbering left b) (name : String) (range : MemTable.Range) :
    Alike renumbering left (.openCursor name range) (a.perform (.openCursor name range))
      (b.perform (.openCursor name range)) := by
  obtain ⟨tables, opened⟩ := spared.table.openCursor range
  have same : (a.table.openCursor range).1 = a.table := by
    obtain ⟨middle, renumbered, _⟩ := spared.table
    exact (renumbered.openCursor_table range).1
  simp only [TableSession.perform]
  generalize a.table.openCursor range = x at tables opened same ⊢
  generalize b.table.openCursor range = y at tables opened ⊢
  obtain ⟨s, first⟩ := x
  obtain ⟨t, second⟩ := y
  simp only at tables opened same
  subst same
  have now := spared.withTable tables (.refl _)
  rcases opened.cases with ⟨c, d, rfl, rfl, related⟩ | ⟨failure, rfl, rfl⟩
  · exact ⟨rfl, now.putCursor name related⟩
  · exact ⟨rfl, now⟩

/-- A step of a cursor is answered the same, unless it tells the sessions apart. -/
theorem cursor (spared : a.Spared renumbering left b) (name : String) (step : CursorCommand) :
    (a.perform (.cursor name step)).1.Spared renumbering left (b.perform (.cursor name step)).1 ∧
      ((b.perform (.cursor name step)).2 = (a.perform (.cursor name step)).2 ∨
        Tells left a b (.cursor name step)) := by
  have pair := spared.cursors name
  simp only [TableSession.perform]
  cases foundA : a.cursors.find? name with
  | none =>
    rw [foundA] at pair
    cases foundB : b.cursors.find? name with
    | none => exact ⟨spared, .inl rfl⟩
    | some _ => rw [foundB] at pair; cases pair
  | some c =>
    rw [foundA] at pair
    cases foundB : b.cursors.find? name with
    | none => rw [foundB] at pair; cases pair
    | some d =>
      rw [foundB] at pair
      cases pair with
      | some related =>
        obtain ⟨states, answer⟩ := spared.table.execute related step
        refine ⟨spared.putCursor name states, ?_⟩
        rcases answer with same | ⟨rfl, bucket, member, place, rfl⟩
        · exact .inl (by simp only [same])
        · exact .inr ⟨bucket, member, name, step, place, rfl, foundA, foundB⟩

theorem insert (spared : a.Spared renumbering left b) (inOrder : a.InOrder) (loose : a.Loose draft)
    {reply : Unit → TableReply}
    (plain : ∀ answer, command.renumber renumbering.number (reply answer) = reply answer) :
    Alike renumbering left command (a.took reply (a.table.insert draft))
      (b.took reply (b.table.insert (draft.renumber renumbering 0))) := by
  refine spared.took ?_ (a.table.perform_extends (.insert draft)) plain
  have inserted := spared.table.insert loose.free
  rwa [inOrder.arena_id] at inserted

/-- Entries are inserted alike by their bytes. -/
theorem addRaw (spared : a.Spared renumbering left b) (inOrder : a.InOrder)
    (lasts : renumbering.count = 0 ∨ b.table.arena.entries.reserved < UInt32.size - 1)
    (entry : Bytes) :
    Alike renumbering left (.addRaw entry) (a.perform (.addRaw entry))
      (b.perform (.addRaw entry)) := by
  have same := spared.table.allocate lasts entry.length
  have tables := spared.table.allocated entry.length
  have inserts := fun {draft} (handedOut : (a.table.allocate entry.length).2 = .ok draft) =>
    spared.table.insert_allocated inOrder.packed handedOut entry
  have own : ∀ {draft}, (a.table.allocate entry.length).2 = .ok draft → draft.arena = 0 :=
    fun handedOut => (Arena.arena_of_allocate handedOut).trans inOrder.arena_id
  have grows : a.table.shelf.Extends (a.table.allocate entry.length).1.shelf :=
    a.table.perform_extends (.allocate entry.length)
  rw [inOrder.arena_id] at same
  simp only [inOrder.arena_id] at inserts
  simp only [TableSession.perform]
  generalize a.table.allocate entry.length = x at same tables inserts own grows ⊢
  generalize b.table.allocate entry.length = y at same tables inserts ⊢
  obtain ⟨s, allocated⟩ := x
  obtain ⟨t, other⟩ := y
  simp only at same tables inserts own grows
  subst same
  have now := spared.withTable tables grows
  cases allocated with
  | error failure => exact ⟨rfl, now⟩
  | ok draft =>
    obtain ⟨answer, states⟩ := inserts rfl
    refine ⟨?_, now.withTable states (s.perform_extends (.insert { draft with bytes := entry }))⟩
    simp only [Except.map, TableSession.took] at answer ⊢
    rw [answer, Draft.renumber_handle (own rfl)]
    cases (s.insert { draft with bytes := entry }).2 <;> rfl

theorem add (spared : a.Spared renumbering left b) (inOrder : a.InOrder)
    (lasts : renumbering.count = 0 ∨ b.table.arena.entries.reserved < UInt32.size - 1)
    (record : Record) :
    Alike renumbering left (.add record) (a.perform (.add record)) (b.perform (.add record)) := by
  obtain ⟨operations, same⟩ := a.table.exists_run_add record
  obtain ⟨tables, answer⟩ := spared.table.add lasts inOrder.packed record
  have extended : a.table.shelf.Extends (a.table.add record).1.shelf :=
    same ▸ a.table.run_extends operations
  refine ⟨?_, spared.withTable tables extended⟩
  simp only [TableSession.perform, TableSession.took, answer]
  cases (a.table.add record).2 <;> rfl

theorem allocate (spared : a.Spared renumbering left b) (inOrder : a.InOrder)
    (lasts : renumbering.count = 0 ∨ b.table.arena.entries.reserved < UInt32.size - 1)
    (name : String) (size : Nat) :
    Alike renumbering left (.allocate name size) (a.perform (.allocate name size))
      (b.perform (.allocate name size)) := by
  have same := spared.table.allocate lasts size
  rw [inOrder.arena_id] at same
  have now := spared.withTable (spared.table.allocated size)
    (a.table.perform_extends (.allocate size))
  refine now.keepDraft name same fun draft handedOut => ?_
  have own := (Arena.arena_of_allocate handedOut).trans inOrder.arena_id
  rw [Draft.renumber_handle own]
  rfl

/-- Drafts of the other arena keep their numbers. -/
theorem allocateElsewhere (spared : a.Spared renumbering left b) (inOrder : a.InOrder)
    (name : String) (size : Nat) :
    Alike renumbering left (.allocateElsewhere name size) (a.perform (.allocateElsewhere name size))
      (b.perform (.allocateElsewhere name size)) := by
  have foreign : ∀ {draft}, (a.otherArena.allocate size).2 = .ok draft →
      draft.renumber renumbering 0 = draft := fun handedOut =>
    Draft.renumber_foreign (by simp [Arena.arena_of_allocate handedOut, inOrder.otherArena_id]) _
  let other := (a.otherArena.allocate size).1
  have now : Spared renumbering left { a with otherArena := other } { b with otherArena := other } :=
    ⟨spared.table, rfl, spared.drafts, spared.cursors⟩
  simp only [TableSession.perform, spared.otherArena]
  refine now.keepDraft name ?_ ?_
  · cases handedOut : (a.otherArena.allocate size).2 with
    | error failure => rfl
    | ok draft => exact congrArg Except.ok (foreign handedOut).symm
  · intro draft handedOut
    rw [foreign handedOut]
    rfl

theorem fill (spared : a.Spared renumbering left b) (name : String) (bytes : Bytes) :
    Alike renumbering left (.fill name bytes) (a.perform (.fill name bytes))
      (b.perform (.fill name bytes)) := by
  refine spared.onDraft name (fun draft => ?_) rfl
  simp only [Draft.fill, Draft.renumber_bytes, Draft.refill_renumber, Outcome.onState]
  by_cases fits : bytes.length = draft.bytes.length
  · simp only [fits, if_true]
  · simp only [fits, if_false]

/-- A step is answered the same up to the numbers of handles, unless it tells the sessions apart or asks
for an account. -/
theorem perform (spared : a.Spared renumbering left b) (inOrder : a.InOrder)
    (lasts : renumbering.count = 0 ∨ b.table.arena.entries.reserved < UInt32.size - 1)
    (command : TableCommand) :
    (a.perform command).1.Spared renumbering left (b.perform command).1 ∧
      (command.IsAccount = false →
        (b.perform command).2 = (a.perform command).2.map (command.renumber renumbering.number) ∨
          Tells left a b command) := by
  have all : ∀ {x y : Stepped TableSession TableReply}, Alike renumbering left command x y →
      x.1.Spared renumbering left y.1 ∧ (command.IsAccount = false →
        y.2 = x.2.map (command.renumber renumbering.number) ∨ Tells left a b command) :=
    fun alike => ⟨alike.sessions, fun _ => .inl alike.reply⟩
  have grows := a.table.perform_extends
  cases command with
  | add record => exact all (spared.add inOrder lasts record)
  | addRaw entry => exact all (spared.addRaw inOrder lasts entry)
  | allocate name size => exact all (spared.allocate inOrder lasts name size)
  | allocateElsewhere name size => exact all (spared.allocateElsewhere inOrder name size)
  | encode name record =>
    refine all ?_
    simp only [TableSession.perform]
    refine spared.onDraft name (fun draft => ?_) rfl
    simp only [Draft.renumber_bytes, Draft.refill_renumber, Outcome.onState]
  | fill name bytes => exact all (spared.fill name bytes)
  | insert name =>
    refine all ?_
    simp only [TableSession.perform, spared.drafts]
    cases held : a.drafts.find? name with
    | none => exact ⟨rfl, spared⟩
    | some draft =>
      exact (spared.dropDraft name).insert (inOrder.drop name) (inOrder.loose held) fun _ => rfl
  | discard name =>
    refine all ?_
    simp only [TableSession.perform, spared.drafts]
    cases a.drafts.find? name with
    | none => exact ⟨rfl, spared⟩
    | some draft => exact ⟨rfl, spared.dropDraft name⟩
  | has key =>
    refine all ?_
    simp only [TableSession.perform]
    cases key.encode with
    | error failure => exact ⟨rfl, spared⟩
    | ok internalKey =>
      exact spared.took (spared.table.contains internalKey) (grows (.contains internalKey))
        fun _ => rfl
  | hasRaw internalKey =>
    exact all (spared.took (spared.table.contains internalKey) (grows (.contains internalKey))
      fun _ => rfl)
  | get userKey sequence limit =>
    refine all ?_
    simp only [TableSession.perform]
    cases LookupKey.of userKey sequence with
    | error failure => exact ⟨rfl, spared⟩
    | ok key => exact spared.took (spared.table.get key _) (grows (.get key _)) fun _ => rfl
  | scan => exact all (spared.took spared.table.scan (grows (.openCursor .all)) fun _ => rfl)
  | scanBackward =>
    exact all (spared.took spared.table.scanBackward (grows (.openCursor .all)) fun _ => rfl)
  | openCursor name range => exact all (spared.openCursor name range)
  | cursor name step =>
    obtain ⟨sessions, reply⟩ := spared.cursor name step
    refine ⟨sessions, fun _ => reply.imp_left fun same => same.trans ?_⟩
    simp only [TableSession.perform]
    cases a.cursors.find? name with
    | none => rfl
    | some cursor =>
      simp only
      cases (a.table.moves.execute cursor step).2 <;> rfl
  | close =>
    obtain ⟨same, tables⟩ := spared.table.close
    refine all ?_
    simp only [TableSession.perform, tables.isReadOnly]
    exact spared.took ⟨same, tables⟩ (grows .close) fun _ => rfl
  | memory | consulted =>
    exact ⟨⟨spared.table, spared.otherArena, spared.drafts, spared.cursors⟩, by rintro ⟨⟩⟩
  | arenaMemory | arenaEntry => exact ⟨spared, by rintro ⟨⟩⟩
  | isReadOnly =>
    refine all ⟨?_, spared⟩
    simp only [TableSession.perform, spared.table.isReadOnly]
    rfl
  | arenaSize =>
    refine all ⟨?_, spared⟩
    simp only [TableSession.perform, spared.table.arena.size]
    rfl
  | bucketCount =>
    refine all ⟨?_, spared⟩
    simp only [TableSession.perform, spared.table.bucketCount?]
    cases a.table.bucketCount? <;> rfl
  | identity | cuckooState | entriesForFlush =>
    refine all ⟨?_, spared⟩
    simp only [TableSession.perform]
    rcases spared.table.buckets with ⟨s, t, first, second⟩ | ⟨s, t, first, second⟩ <;>
      (rw [first, second]; rfl)

theorem execute (spared : a.Spared renumbering left b) (inOrder : a.InOrder)
    (lasts : renumbering.count = 0 ∨ b.table.arena.entries.reserved < UInt32.size - 1)
    (command : TableCommand) :
    (a.execute command).1.Spared renumbering left (b.execute command).1 ∧
      (command.IsAccount = false →
        (b.execute command).2 = (a.execute command).2.map (command.renumber renumbering.number) ∨
          Tells left a b command) := by
  obtain ⟨now, reply⟩ := spared.perform inOrder lasts command
  exact ⟨⟨now.table, now.otherArena, now.drafts, now.cursors⟩, reply⟩

/-- Sessions go on to agree whatever is done to both, as long as there are handles. -/
theorem run (spared : a.Spared renumbering left b) (inOrder : a.InOrder)
    (later : List TableCommand) (lasts : renumbering.count = 0 ∨
      (b.run later).table.arena.entries.reserved < UInt32.size - 1) :
    (a.run later).Spared renumbering left (b.run later) := by
  induction later generalizing a b with
  | nil => exact spared
  | cons command rest ih =>
    have started : renumbering.count = 0 ∨ b.table.arena.entries.reserved < UInt32.size - 1 :=
      lasts.imp_right fun few => (b.reserved_run (command :: rest)).trans_lt few
    exact ih (spared.execute inOrder started command).1 (inOrder.execute command) lasts

end Spared

end TableSession

end WriteBuffer
