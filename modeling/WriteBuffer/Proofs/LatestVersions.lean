import Mathlib
import WriteBuffer.Proofs.Runs
import WriteBuffer.Proofs.Table.Cuckoo

/-!
Tables that keep latest versions only. After any run, a cuckoo table stores the latest accepted
version of every user key at exactly one site and stores nothing else; its answers and refusals are
those of a map from user keys to these versions (`MemTable.cuckoo_stores_latest`).
-/
namespace WriteBuffer

namespace CuckooTable

/-- Where a cuckoo table may store an entry. -/
inductive Site
  | slot (index : Nat)
  | backup
deriving DecidableEq

def backupEntries (table : CuckooTable) : Except Failure (List Bytes) :=
  match table.index.backup with
  | none => .ok []
  | some backup => backup.entries table.shelf

/-- A table stores an entry at a site. -/
def Stores (table : CuckooTable) (entry : Bytes) : Site → Prop
  | .slot index => table.entryAt index = .ok (some entry)
  | .backup => ∃ entries, table.backupEntries = .ok entries ∧ entry ∈ entries

/-- Every site can be read. Each latest version of a user key is stored at exactly one of them, in a
slot that the user key may have or in the backup, and nothing else is stored. -/
structure StoresLatest (table : CuckooTable) (taken : List Bytes) : Prop where
  readable : (∀ slot, ∃ content, table.entryAt slot = .ok content) ∧
    ∃ entries, table.backupEntries = .ok entries
  once : ∀ userKey entry, latest userKey taken = some entry → ∃! site, table.Stores entry site
  own : ∀ slot entry, table.Stores entry (.slot slot) → ∃ userKey candidates,
    entryUserKey entry = .ok userKey ∧ table.index.candidates userKey = .ok candidates ∧
      slot ∈ candidates
  nothingElse : ∀ entry site, table.Stores entry site →
    ∃ userKey, entryUserKey entry = .ok userKey ∧ latest userKey taken = some entry

variable {table : CuckooTable} {slots : Nat → Option Bytes} {spare : Option Bytes}
  {taken : List Bytes} {entry : Bytes}

theorem Spares.backupEntries_eq (spares : table.Spares spare) :
    table.backupEntries = .ok spare.toList := by
  cases spares with
  | nothing absent => simp only [backupEntries, absent, Option.toList_none]
  | one closed present holds =>
    obtain ⟨entries, read, perm⟩ := holds.entries_eq
    simp only [backupEntries, present, read, List.perm_singleton.mp perm, Option.toList_some]

theorem Holds.stores_iff (holds : table.Holds slots spare taken) (site : Site) :
    table.Stores entry site ↔ (∃ slot, site = .slot slot ∧ slots slot = some entry) ∨
      (site = .backup ∧ spare = some entry) := by
  cases site with
  | slot index => simp [Stores, holds.shown index]
  | backup => simp [Stores, holds.backup.backupEntries_eq, eq_comm]

theorem Holds.storesLatest (holds : table.Holds slots spare taken) : table.StoresLatest taken where
  readable := ⟨fun slot => ⟨_, holds.shown slot⟩, _, holds.backup.backupEntries_eq⟩
  once := by
    intro userKey entry isLatest
    obtain ⟨user, ⟨slot, full⟩ | spared⟩ := holds.housed.latest.mp isLatest
    · refine ⟨.slot slot, (holds.stores_iff _).mpr (.inl ⟨slot, rfl, full⟩), ?_⟩
      intro site stored
      rcases (holds.stores_iff site).mp stored with ⟨other, rfl, found⟩ | ⟨rfl, spared⟩
      · rw [holds.housed.once found full rfl]
      · exact absurd rfl (holds.housed.apart full spared)
    · refine ⟨.backup, (holds.stores_iff _).mpr (.inr ⟨rfl, spared⟩), ?_⟩
      intro site stored
      rcases (holds.stores_iff site).mp stored with ⟨other, rfl, found⟩ | ⟨rfl, _⟩
      · exact absurd rfl (holds.housed.apart found spared)
      · rfl
  own := by
    intro slot entry stored
    obtain ⟨userKey, user, own⟩ := holds.housed.own (Except.ok.inj ((holds.shown slot).symm.trans
      stored))
    exact ⟨userKey, _, user, holds.chooses.candidates_eq userKey, own⟩
  nothingElse := by
    intro entry site stored
    rcases (holds.stores_iff site).mp stored with ⟨slot, _, full⟩ | ⟨_, spared⟩
    · obtain ⟨userKey, user, _⟩ := holds.housed.own full
      exact ⟨userKey, user, holds.housed.latest.mpr ⟨user, .inl ⟨slot, full⟩⟩⟩
    · obtain ⟨userKey, user⟩ := holds.housed.named spared
      exact ⟨userKey, user, holds.housed.latest.mpr ⟨user, .inr spared⟩⟩

end CuckooTable

namespace MemTable

/-- An insert into an open cuckoo table that publishes its entry but finds no room for it. -/
def Overflows (draft : Draft) : MemTable → Prop
  | cuckoo table => table.isReadOnly = false ∧ table.Crowds draft
  | skipList _ | vector _ | hashedSkipLists _ | hashedChains _ => False

variable {table : CuckooTable} {slots : Nat → Option Bytes} {spare : Option Bytes}
  {taken : List Bytes}

/-- What one operation does to a cuckoo table. -/
theorem cuckoo_perform (holds : table.Holds slots spare taken)
    (vacant : table.gate.occupied = false) (operation : Operation) :
    ∃ now held backup, (cuckoo table).perform operation = cuckoo now ∧
      now.Holds held backup (taken ++ (cuckoo table).added operation) ∧
      now.gate.occupied = false ∧ (now.index.backup.isSome ↔ table.index.backup.isSome ∨
        ∃ draft, operation = .insert draft ∧ (cuckoo table).Overflows draft) := by
  have kept : ∃ now held backup, cuckoo table = cuckoo now ∧ now.Holds held backup (taken ++ []) ∧
      now.gate.occupied = false ∧ (now.index.backup.isSome ↔ table.index.backup.isSome ∨ False) := by
    rw [List.append_nil, or_false]
    exact ⟨table, slots, spare, rfl, holds, vacant, Iff.rfl⟩
  cases operation with
  | insert draft =>
    simp only [Operation.insert.injEq, exists_eq_left']
    by_cases closed : table.isReadOnly = true
    · have same : (cuckoo table).insert draft = (cuckoo table, .error (.readOnly .cuckoo)) := by
        rw [MemTable.insert, CuckooTable.insert_closed closed draft]
        rfl
      simpa [perform, added, gained, same, Overflows, closed] using kept
    · have opened : table.isReadOnly = false := by simpa using closed
      have absent : table.index.backup = none := by
        cases holds.backup with
        | nothing absent => exact absent
        | one closed => cases opened.symm.trans closed
      rcases holds.insert_open opened vacant draft with
        ⟨failure, failed, roomy, _⟩ | ⟨now, held, backup, done, after, left, _, overflows⟩
      · have same : (cuckoo table).insert draft = (cuckoo table, .error failure) := by
          rw [MemTable.insert, failed]
          rfl
        simpa [perform, added, gained, same, Overflows, roomy] using kept
      · have same : (cuckoo table).insert draft = (cuckoo now, .ok ()) := by
          rw [MemTable.insert, done]
          rfl
        refine ⟨now, held, backup, ?_, ?_, left, ?_⟩
        · rw [perform, same]
        · rw [added, same]
          exact after
        · simpa [absent, Overflows, opened] using overflows
  | allocate size =>
    refine ⟨_, slots, spare, rfl, ?_, vacant, by simp⟩
    rw [added, List.append_nil]
    exact holds.keeps rfl (Arena.keeps_allocate _ size) fun closed => closed
  | close =>
    refine ⟨_, slots, spare, rfl, ?_, vacant, by simp [Table.close, Table.report]⟩
    rw [added, List.append_nil]
    exact holds.keeps rfl (fun found => found) fun _ => rfl
  | get key goesOn =>
    have same : ((cuckoo table).get key goesOn).1 = cuckoo table := by
      simp only [MemTable.get]
      cases key.userKey <;> rfl
    simpa [perform, added, same] using kept
  | contains internalKey =>
    have same : ((cuckoo table).contains internalKey).1 = cuckoo table := rfl
    simpa [perform, added, same] using kept
  | openCursor range =>
    have same : ((cuckoo table).openCursor range).1 = cuckoo table := rfl
    simpa [perform, added, same] using kept

/-- What a run does to a cuckoo table. -/
theorem cuckoo_run (holds : table.Holds slots spare taken) (vacant : table.gate.occupied = false)
    (operations : List Operation) :
    ∃ now held backup, (cuckoo table).run operations = cuckoo now ∧
      now.Holds held backup (taken ++ accepted (cuckoo table) operations) ∧
      now.gate.occupied = false ∧ (now.index.backup.isSome ↔ table.index.backup.isSome ∨
        ∃ earlier draft later, operations = earlier ++ .insert draft :: later ∧
          ((cuckoo table).run earlier).Overflows draft) := by
  induction operations generalizing table slots spare taken with
  | nil =>
    refine ⟨table, slots, spare, rfl, ?_, vacant, by simp⟩
    rw [accepted, List.append_nil]
    exact holds
  | cons operation rest ih =>
    obtain ⟨next, filled, spared, step, after, left, grown⟩ :=
      cuckoo_perform holds vacant operation
    obtain ⟨now, held, backup, ran, final, free, overflown⟩ := ih after left
    have first : (cuckoo table).run (operation :: rest) = (cuckoo next).run rest := by
      rw [run, List.foldl_cons, step, run]
    refine ⟨now, held, backup, first.trans ran, ?_, free, overflown.trans ?_⟩
    · rw [accepted, ← List.append_assoc, step]
      exact final
    · rw [grown, or_assoc]
      refine or_congr_right ⟨?_, ?_⟩
      · rintro (⟨draft, rfl, overflows⟩ | ⟨earlier, draft, later, rfl, overflows⟩)
        · exact ⟨[], draft, rest, rfl, overflows⟩
        · refine ⟨operation :: earlier, draft, later, rfl, ?_⟩
          rw [run, List.foldl_cons, step]
          exact overflows
      · rintro ⟨earlier, draft, later, parts, overflows⟩
        cases earlier with
        | nil =>
          obtain ⟨rfl, rfl⟩ := List.cons.inj parts
          exact .inl ⟨draft, rfl, overflows⟩
        | cons start earlier =>
          obtain ⟨rfl, rfl⟩ := List.cons.inj parts
          rw [run, List.foldl_cons, step] at overflows
          exact .inr ⟨earlier, draft, later, rfl, overflows⟩

/-- After any run of a cuckoo table, each latest version of a user key is stored at exactly one site
and nothing else is. The table has exactly the internal keys of these versions, and, while it is open,
refuses exactly the entries that repeat one of them as duplicates. It has a backup exactly if some
insert found no room; the backup holds one entry, and the table is read-only from then on. -/
theorem cuckoo_stores_latest {shelf : Shelf} {hash : UInt64 → Bytes → UInt64} {heights : Heights}
    {count hashCount : Nat} (ordered : shelf.order = .versioned) (positive : 0 < count)
    (made : CuckooTable.create shelf hash heights count hashCount = .ok table)
    (operations : List Operation) :
    ∃ now, (cuckoo table).run operations = cuckoo now ∧
      now.StoresLatest (accepted (cuckoo table) operations) ∧
      (∀ internalKey, HasTag internalKey → ∃ answer, now.contains internalKey = .ok answer ∧
        (answer = true ↔ ∃ userKey entry,
          latest userKey (accepted (cuckoo table) operations) = some entry ∧
            entryKey entry = .ok internalKey)) ∧
      (now.isReadOnly = false → ∀ draft,
        (CuckooTable.insert draft now).2 = .error (.duplicateKey .cuckooTable) ↔
          ∃ userKey entry, entryUserKey draft.bytes = .ok userKey ∧
            latest userKey (accepted (cuckoo table) operations) = some entry ∧
            entryKey entry = entryKey draft.bytes) ∧
      (now.index.backup.isSome ↔
        ∃ earlier draft later, operations = earlier ++ .insert draft :: later ∧
          ((cuckoo table).run earlier).Overflows draft) ∧
      (now.index.backup.isSome → now.isReadOnly = true ∧
        ∃ entry, now.backupEntries = .ok [entry]) := by
  have vacant : table.gate.occupied = false := by
    simp only [CuckooTable.create, bind_eq_ok, pure, Except.pure, Except.ok.injEq] at made
    obtain ⟨_, _, rfl⟩ := made
    rfl
  have initial := CuckooTable.create_holds made ordered positive
  obtain ⟨now, held, backup, ran, holds, left, overflown⟩ := cuckoo_run initial vacant operations
  have absent : table.index.backup = none := by
    cases initial.backup with
    | nothing absent => exact absent
  rw [List.nil_append] at holds
  refine ⟨now, ran, holds.storesLatest, fun _ tagged => holds.contains_eq tagged, ?_, ?_, ?_⟩
  · intro opened draft
    rcases holds.insert_open opened left draft with
      ⟨failure, failed, _, repeats⟩ | ⟨next, _, _, done, _, _, fresh, _⟩
    · rw [failed, Except.error.injEq]
      exact repeats
    · rw [done]
      refine ⟨fun refused => ?_, fun repeats => absurd repeats fresh⟩
      cases refused
  · simpa [absent] using overflown
  · intro present
    have entries := holds.backup.backupEntries_eq
    cases holds.backup with
    | nothing none => simp [none] at present
    | one closed _ _ => exact ⟨closed, _, entries⟩

/-- Of two versions of a user key, one slot stores the newer one and none the older one, although
another user key claims the only slot. -/
theorem cuckoo_stores_newer_version :
    let table : CuckooTable := {
      shelf := { order := .versioned, arena := { id := 0 } }
      log := [.creatingCuckooTable 1 1]
      index := { hash := fun _ _ => 0, hashCount := 1, slots := .empty 1, heights := fun _ => 1 } }
    let older : Bytes := [9, 0, 0, 0, 97, 1, 1, 0, 0, 0, 0, 0, 0, 0, 0, 0, 0]
    let newer : Bytes := [9, 0, 0, 0, 97, 1, 2, 0, 0, 0, 0, 0, 0, 0, 0, 0, 0]
    let other : Bytes := [9, 0, 0, 0, 98, 1, 3, 0, 0, 0, 0, 0, 0, 0, 0, 0, 0]
    let operations : List Operation :=
      [.insert ⟨0, ⟨0⟩, older⟩, .insert ⟨0, ⟨1⟩, newer⟩, .insert ⟨0, ⟨2⟩, other⟩]
    accepted (cuckoo table) operations = [older, newer, other] ∧
      ∃ now, (cuckoo table).run operations = cuckoo now ∧
        (∃! site, now.Stores newer site) ∧ (∃! site, now.Stores other site) ∧
        ∀ site, ¬ now.Stores older site := by
  intro table older newer other operations
  have all : accepted (cuckoo table) operations = [older, newer, other] := by decide +kernel
  have made : CuckooTable.create table.shelf table.index.hash table.index.heights 1 1 = .ok table :=
    rfl
  obtain ⟨now, ran, stores, _⟩ := cuckoo_stores_latest rfl (by decide) made operations
  rw [all] at stores
  refine ⟨all, now, ran, stores.once [97] newer (by decide +kernel),
    stores.once [98] other (by decide +kernel), ?_⟩
  intro site stored
  obtain ⟨userKey, user, isLatest⟩ := stores.nothingElse older site stored
  have ofOlder : entryUserKey older = .ok [97] := by decide +kernel
  obtain rfl := Except.ok.inj (ofOlder.symm.trans user)
  have notLatest : latest [97] [older, newer, other] ≠ some older := by decide +kernel
  exact notLatest isLatest

end MemTable

end WriteBuffer
