import Mathlib
import WriteBuffer.Proofs.Displacing
import WriteBuffer.Proofs.LatestVersions
import WriteBuffer.Proofs.WellFormed

/-!
Reads of spilled entries. A lookup shows the stored version of its user key whatever its sequence
number is, as long as it has a slot. The backup is searched by internal key instead, so there a lookup
misses a version that is newer than it asks for, and a spilled entry does not read like one in a slot
(`MemTable.get_misses_spilled`).
-/
namespace WriteBuffer

namespace CuckooTable

variable {table : CuckooTable} {slots : Nat → Option Bytes} {spare : Option Bytes}
  {taken : List Bytes} {userKey entry : Bytes}

/-- A stored entry that a lookup does not reach: it is in the backup, in front of the lookup key. -/
def Misses (table : CuckooTable) (key : LookupKey) (entry : Bytes) : Prop :=
  table.Stores entry .backup ∧ KeyOrder.versioned.compareEntryKey entry key.internalKey = .ok .lt

/-- A lookup of a user key shows its stored version and nothing else, or misses it and shows nothing. -/
theorem Holds.get_stored (holds : table.Holds slots spare taken)
    (isLatest : latest userKey taken = some entry) {key : LookupKey} (tagged : HasTag key.internalKey) :
    (table.Misses key entry ∧ ∀ goesOn, table.get userKey key.internalKey goesOn = .ok []) ∨
      (¬ table.Misses key entry ∧
        ∀ goesOn, table.get userKey key.internalKey goesOn = .ok [entry]) := by
  obtain ⟨user, place⟩ := holds.housed.latest.mp isLatest
  rcases holds.get_cases userKey tagged with
    ⟨slot, shownEntry, full, cut, shown⟩ | ⟨absent, front, back, parts, split, shown⟩
  · have same := holds.housed.latest.mpr ⟨cut, .inl ⟨slot, full⟩⟩
    obtain rfl := Option.some.inj (isLatest.symm.trans same)
    refine .inr ⟨fun misses => ?_, shown⟩
    rcases (holds.stores_iff _).mp misses.1 with ⟨_, inSlot, _⟩ | ⟨_, spared⟩
    · cases inSlot
    · exact holds.housed.apart full spared rfl
  · obtain ⟨slot, full⟩ | rfl := place
    · exact absurd user (absent slot entry full)
    · have stored : table.Stores entry .backup := (holds.stores_iff _).mpr (.inr ⟨rfl, rfl⟩)
      rcases List.singleton_eq_append_iff.mp parts with ⟨rfl, rfl⟩ | ⟨rfl, rfl⟩
      · obtain ⟨ordering, answer, notBelow⟩ := split.notBelow entry (List.mem_singleton_self _)
        refine .inr ⟨fun misses => notBelow (Except.ok.inj (answer.symm.trans misses.2)), ?_⟩
        intro goesOn
        rw [shown goesOn]
        simp [seen]
      · exact .inl ⟨⟨stored, split.below entry (List.mem_singleton_self _)⟩, shown⟩

/-- A record comes before a lookup of its user key exactly if the lookup asks for an earlier sequence
number. -/
theorem before_lookup_iff {record : Record} {target : Bytes} {sequence : UInt64}
    (decoded : Record.decode entry = .ok record) (user : entryUserKey entry = .ok userKey)
    (spelled : InternalKey.decode target = .ok ⟨userKey, sequence, .merge⟩) :
    KeyOrder.versioned.compareEntryKey entry target = .ok .lt ↔ sequence < record.sequence := by
  obtain rfl := Except.ok.inj ((Record.entryUserKey_eq decoded).symm.trans user)
  have visible := InternalKey.not_below_lookup record.internalKey record.userKey sequence
  have self : Ord.compare record.userKey record.userKey = .eq := Std.compare_eq_iff_eq.mpr rfl
  simp only [Record.internalKey, self, reduceCtorEq, false_or, true_and] at visible
  rw [Record.compareEntryKey_eq decoded spelled, Except.ok.injEq, ← UInt64.not_le, ← visible,
    not_not]
  rfl

theorem chooses_of_insert {draft : Draft} (done : (insert draft table).2 = .ok ()) :
    table.index.Chooses := by
  rcases Table.asWriter_takeIn .cuckoo draft (refuseRepeated · draft.bytes)
      (fun _ table => house table draft.handle) table with
    ⟨failure, failed, _⟩ | ⟨gate, _, _, _, _, asked, _⟩
  · cases done.symm.trans failed
  · simp only [refuseRepeated, findUserKey, bind_eq_ok] at asked
    obtain ⟨userKey, _, _, ⟨among, chosen, _⟩, _⟩ := asked
    by_contra none
    obtain ⟨empty, hashes⟩ := not_or.mp none
    rw [CuckooIndex.candidates, if_pos ⟨Nat.eq_zero_of_not_pos empty, hashes⟩] at chosen
    cases chosen

end CuckooTable

namespace MemTable

variable {table : CuckooTable}

/-- A table in which no user key can be given slots never takes in an entry. -/
theorem accepted_of_not_chooses (vacant : table.gate.occupied = false) (legible : table.Legible)
    (none : ¬ table.index.Chooses) (operations : List Operation) :
    accepted (cuckoo table) operations = [] := by
  induction operations generalizing table with
  | nil => rfl
  | cons operation rest ih =>
    obtain ⟨now, performed, left, kept, change⟩ := cuckoo_step vacant legible operation
    rcases change with ⟨index, fails⟩ | ⟨draft, _, _, done, _⟩
    · have nothing : (cuckoo table).added operation = [] := by
        cases operation with
        | insert draft =>
          cases answer : (CuckooTable.insert draft table).2 with
          | ok _ => exact absurd answer (fails draft rfl)
          | error failure =>
            have failed : ((cuckoo table).insert draft).2 = .error failure := answer
            rw [added, failed, gained]
        | allocate size | contains internalKey | get key goesOn | openCursor range | close => rfl
      rw [accepted, nothing, performed, ih left kept (index ▸ none), List.append_nil]
    · exact absurd (CuckooTable.chooses_of_insert done) none

/-- After any run of a cuckoo table, a lookup of a user key as of any time shows its stored version,
whatever its sequence number is, and nothing else, with one exception: if the version was spilled to
the backup and comes before the lookup key, the lookup shows nothing. For a record, this means that the
lookup asks for an earlier sequence number. -/
theorem get_misses_spilled {shelf : Shelf} {hash : UInt64 → Bytes → UInt64} {heights : Heights}
    {count hashCount : Nat} (ordered : shelf.order = .versioned)
    (made : CuckooTable.create shelf hash heights count hashCount = .ok table)
    (operations : List Operation) {userKey entry : Bytes}
    (isLatest : latest userKey (accepted (cuckoo table) operations) = some entry)
    {sequence : UInt64} (low : sequence ≤ maxSequence) :
    ∃ now key, (cuckoo table).run operations = cuckoo now ∧
      LookupKey.of userKey sequence = .ok key ∧
      ((now.Misses key entry ∧ ∀ goesOn, ((cuckoo now).get key goesOn).2 = .ok []) ∨
        (¬ now.Misses key entry ∧ ∀ goesOn, ((cuckoo now).get key goesOn).2 = .ok [entry])) ∧
      ∀ record, Record.decode entry = .ok record →
        (now.Misses key entry ↔ now.Stores entry .backup ∧ sequence < record.sequence) := by
  obtain ⟨vacant, legible⟩ := (Made.cuckoo made).sound
  by_cases chooses : 0 < count ∨ hashCount = 0
  · obtain ⟨now, held, backup, ran, holds, _⟩ :=
      cuckoo_run (CuckooTable.create_holds_of_chooses made ordered chooses) vacant operations
    rw [List.nil_append] at holds
    obtain ⟨key, looked, user, spelled⟩ := LookupKey.of_ok low
    obtain ⟨tagged, _⟩ := InternalKey.decode_ok spelled
    refine ⟨now, key, ran, looked, ?_, fun record decoded => and_congr_right fun _ => ?_⟩
    · simpa only [MemTable.get, user] using holds.get_stored isLatest tagged
    · have cut := (holds.housed.latest.mp isLatest).1
      exact CuckooTable.before_lookup_iff decoded cut spelled
  · have none : ¬ table.index.Chooses := by
      obtain rfl := CuckooTable.create_ok made
      exact chooses
    rw [accepted_of_not_chooses vacant legible none operations] at isLatest
    cases isLatest

/-- A user key whose only slot is taken is spilled, and a lookup as of an earlier time misses it. -/
theorem get_misses_spilled_second_key :
    let fresh : CuckooTable := {
      shelf := { order := .versioned, arena := { id := 0 } }
      log := [.creatingCuckooTable 1 1]
      index := { hash := fun _ _ => 0, hashCount := 1, slots := .empty 1, heights := fun _ => 1 } }
    let a : Bytes := [9, 0, 0, 0, 97, 1, 1, 0, 0, 0, 0, 0, 0, 0, 0, 0, 0]
    let b : Bytes := [9, 0, 0, 0, 98, 1, 2, 0, 0, 0, 0, 0, 0, 0, 0, 0, 0]
    let operations : List Operation := [.insert ⟨0, ⟨0⟩, a⟩, .insert ⟨0, ⟨1⟩, b⟩]
    latest [98] (accepted (cuckoo fresh) operations) = some b ∧ (1 : UInt64) ≤ maxSequence ∧
      ∃ now key, (cuckoo fresh).run operations = cuckoo now ∧ LookupKey.of [98] 1 = .ok key ∧
        ∀ goesOn, ((cuckoo now).get key goesOn).2 = .ok [] := by
  intro fresh a b operations
  have made : CuckooTable.create fresh.shelf fresh.index.hash fresh.index.heights 1 1 = .ok fresh :=
    rfl
  have isLatest : latest [98] (accepted (cuckoo fresh) operations) = some b := by decide +kernel
  have low : (1 : UInt64) ≤ maxSequence := by decide
  obtain ⟨now, key, ran, looked, answers, hidden⟩ := get_misses_spilled rfl made operations isLatest low
  have spilled : now.backupEntries = .ok [b] := by
    obtain rfl := cuckoo.inj ran
    decide +kernel
  have misses : now.Misses key b :=
    (hidden ⟨[98], 2, .put, []⟩ (by decide +kernel)).mpr
      ⟨⟨[b], spilled, List.mem_singleton_self b⟩, by decide⟩
  refine ⟨isLatest, low, now, key, ran, looked, ?_⟩
  rcases answers with ⟨_, shown⟩ | ⟨reached, _⟩
  · exact shown
  · exact absurd misses reached

/-- Two user keys claim the one slot. A lookup as of an earlier time shows the version that has it, but
not the one that was spilled. -/
theorem spilled_version_not_shown :
    let fresh : CuckooTable := {
      shelf := { order := .versioned, arena := { id := 0 } }
      log := [.creatingCuckooTable 1 1]
      index := { hash := fun _ _ => 0, hashCount := 1, slots := .empty 1, heights := fun _ => 1 } }
    let a : Bytes := [9, 0, 0, 0, 97, 1, 1, 0, 0, 0, 0, 0, 0, 0, 0, 0, 0]
    let b : Bytes := [9, 0, 0, 0, 98, 1, 2, 0, 0, 0, 0, 0, 0, 0, 0, 0, 0]
    let now := (cuckoo fresh).run [.insert ⟨0, ⟨0⟩, a⟩, .insert ⟨0, ⟨1⟩, b⟩]
    let shown (userKey : Bytes) (sequence : UInt64) : Except Failure (List Bytes) := do
      (now.get (← LookupKey.of userKey sequence) fun _ => true).2
    shown [97] 0 = .ok [a] ∧ shown [98] 2 = .ok [b] ∧ shown [98] 1 = .ok [] := by
  decide +kernel

end MemTable

end WriteBuffer
