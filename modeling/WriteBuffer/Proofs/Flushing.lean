import Mathlib
import WriteBuffer.Proofs.LatestVersions
import WriteBuffer.Proofs.WholeInserts

/-!
What a flush yields. The slots and the backup of a cuckoo table together name each latest version
once (`CuckooTable.Holds.distinct`), so sorting them neither meets equal keys nor loses one
(`CuckooTable.Holds.flushed`), and a flush after any run shows the latest version of every user key
that was accepted (`MemTable.flush_yields_latest`).
-/
namespace WriteBuffer

namespace Shelf

variable {shelf : Shelf}

theorem reads_cells {cells : List (Nat × Handle)} {slots : Nat → Option Bytes}
    (each : ∀ cell ∈ cells, ∃ entry, slots cell.1 = some entry ∧
      shelf.arena.get cell.2 = .ok entry) :
    shelf.Reads (cells.map (·.2)) ((cells.map (·.1)).filterMap slots) := by
  induction cells with
  | nil => rfl
  | cons cell rest ih =>
    obtain ⟨entry, shows, read⟩ := each cell List.mem_cons_self
    have later := ih fun other member => each other (List.mem_cons_of_mem _ member)
    rw [Reads] at later ⊢
    rw [List.map_cons, List.map_cons, read, later, List.map_cons, List.filterMap_cons_some shows,
      List.map_cons]

end Shelf

namespace CuckooTable

variable {table : CuckooTable} {slots : Nat → Option Bytes} {spare : Option Bytes}
  {taken : List Bytes} {entry userKey : Bytes}

/-- The entries in the slots of a table that shows the given ones, slot by slot. -/
def inSlots (table : CuckooTable) (slots : Nat → Option Bytes) : List Bytes :=
  table.index.slots.keys.filterMap slots

theorem Shows.mem_inSlots (shown : table.Shows slots) :
    entry ∈ table.inSlots slots ↔ ∃ slot, slots slot = some entry := by
  simp only [inSlots, List.mem_filterMap, Sparse.mem_keys]
  refine exists_congr fun slot => and_iff_right_of_imp fun full => ?_
  have filled := shown.isFull_eq slot
  rw [full] at filled
  exact filled

theorem Shows.reads (shown : table.Shows slots) :
    table.shelf.Reads table.index.slots.values (table.inSlots slots) := by
  refine Shelf.reads_cells fun cell member => ?_
  have read := shown cell.1
  simp only [entryAt, Sparse.get?_of_mem member] at read
  cases found : table.shelf.arena.get cell.2 with
  | error failure => simp [found, Except.map] at read
  | ok entry =>
    simp only [found, Except.map, Except.ok.injEq] at read
    exact ⟨entry, read.symm, rfl⟩

def backupHandles (table : CuckooTable) : Except Failure (List Handle) :=
  table.index.backup.elim (.ok []) fun backup => backup.list.handles backup.nodes

theorem Spares.reads (spares : table.Spares spare) :
    ∃ handles, table.backupHandles = .ok handles ∧ table.shelf.Reads handles spare.toList := by
  cases spares with
  | nothing absent =>
    rw [backupHandles, absent]
    exact ⟨[], rfl, rfl⟩
  | one closed present holds =>
    obtain ⟨rows, entries, linked, tallied, reads, _, all⟩ := holds
    obtain rfl := List.perm_singleton.mp all
    rw [backupHandles, present]
    exact ⟨handlesOf rows, linked.handles_eq tallied, reads⟩

/-- A read-only table is flushed by sorting what its slots and its backup hold. -/
theorem entriesForFlush_closed (closed : table.isReadOnly = true) :
    table.entriesForFlush = (table.backupHandles >>= fun spilled =>
      sortStable table.shelf.compareHandles (table.index.slots.values ++ spilled) >>=
        List.mapM table.shelf.arena.get) := by
  simp only [entriesForFlush, closed, Bool.not_true, Bool.false_eq_true, if_false, backupHandles]
  cases table.index.backup <;> rfl

/-- The entries in the slots and in the backup are of different user keys. -/
theorem Holds.distinct (holds : table.Holds slots spare taken) :
    (table.inSlots slots ++ spare.toList).Pairwise fun a b => entryUserKey a ≠ entryUserKey b := by
  refine List.pairwise_append.mpr ⟨?_, ?_, ?_⟩
  · refine List.pairwise_filterMap.mpr ?_
    refine table.index.slots.nodup_keys.imp ?_
    intro a b different x inA y inB same
    exact different (holds.housed.once inA inB same)
  · cases spare <;> simp
  · intro a inSlot b spared
    obtain ⟨slot, full⟩ := holds.shown.mem_inSlots.mp inSlot
    exact holds.housed.apart full (Option.mem_toList.mp spared)

/-- The slots and the backup hold exactly the latest versions. -/
theorem Holds.latest_iff (holds : table.Holds slots spare taken) :
    latest userKey taken = some entry ↔
      entry ∈ table.inSlots slots ++ spare.toList ∧ entryUserKey entry = .ok userKey := by
  rw [holds.housed.latest, List.mem_append, holds.shown.mem_inSlots, Option.mem_toList,
    and_comm]

theorem Holds.named (holds : table.Holds slots spare taken)
    (member : entry ∈ table.inSlots slots ++ spare.toList) :
    ∃ userKey, entryUserKey entry = .ok userKey := by
  rcases List.mem_append.mp member with inSlot | spared
  · obtain ⟨slot, full⟩ := holds.shown.mem_inSlots.mp inSlot
    obtain ⟨userKey, user, _⟩ := holds.housed.own full
    exact ⟨userKey, user⟩
  · exact holds.housed.named (Option.mem_toList.mp spared)

/-- A flush of a read-only table yields what the slots and the backup hold, in order. -/
theorem Holds.flushed (holds : table.Holds slots spare taken) (closed : table.isReadOnly = true) :
    ∃ entries, table.entriesForFlush = .ok entries ∧ KeyOrder.versioned.Sorted entries ∧
      entries.Perm (table.inSlots slots ++ spare.toList) := by
  obtain ⟨spilled, backup, readSpilled⟩ := holds.backup.reads
  have reads := holds.shown.reads.append readSpilled
  have readable : ∀ entry ∈ table.inSlots slots ++ spare.toList, HasKey HasTag entry := by
    intro entry member
    obtain ⟨userKey, user⟩ := holds.named member
    obtain ⟨key, cut, tagged, _⟩ := entryKey_of_entryUserKey user
    exact ⟨key, cut, tagged⟩
  have untied : KeyOrder.versioned.Untied (table.inSlots slots ++ spare.toList) := by
    refine KeyOrder.versioned_untied readable (holds.distinct.imp fun different same => ?_)
    exact different (by rw [entryUserKey, entryUserKey, same])
  obtain ⟨handles, entries, sorted, readSorted, inOrder, perm⟩ :=
    reads.sorts (holds.order ▸ KeyOrder.versioned_totalOn) readable (holds.order ▸ untied)
  refine ⟨entries, ?_, holds.order ▸ inOrder, perm⟩
  rw [entriesForFlush_closed closed]
  exact bind_eq_ok.mpr ⟨spilled, backup, bind_eq_ok.mpr ⟨handles, sorted, readSorted.mapM_eq⟩⟩

end CuckooTable

namespace MemTable

variable {table : CuckooTable}

/-- A list in which no two entries have the same user key holds, of each user key, at most one. -/
theorem filter_userKey {entries : List Bytes} {userKey : Bytes} {found? : Option Bytes}
    (distinct : entries.Pairwise fun a b => entryUserKey a ≠ entryUserKey b)
    (exact : ∀ entry, found? = some entry ↔ entry ∈ entries ∧ entryUserKey entry = .ok userKey) :
    entries.filter (fun entry => decide (entryUserKey entry = .ok userKey)) = found?.toList := by
  let ofUser := entries.filter fun entry => decide (entryUserKey entry = .ok userKey)
  have mem_iff : ∀ entry, entry ∈ ofUser ↔ found? = some entry := by
    intro entry
    rw [exact, List.mem_filter, decide_eq_true_iff]
  have apart : ofUser.Pairwise fun a b => entryUserKey a ≠ entryUserKey b := distinct.filter _
  have user : ∀ entry ∈ ofUser, entryUserKey entry = .ok userKey := fun entry member =>
    ((exact entry).mp ((mem_iff entry).mp member)).2
  change ofUser = found?.toList
  match ofUser, mem_iff, apart, user with
  | [], mem_iff, _, _ =>
    cases found? with
    | none => rfl
    | some entry => cases (mem_iff entry).mpr rfl
  | [entry], mem_iff, _, _ =>
    rw [(mem_iff entry).mp List.mem_cons_self]
    rfl
  | first :: second :: rest, _, apart, user =>
    have different := (List.pairwise_cons.mp apart).1 second List.mem_cons_self
    rw [user first List.mem_cons_self, user second (by simp)] at different
    exact absurd rfl different

/-- A flush of a cuckoo table is refused while the table is open. Once it is read-only, a flush after
any run yields entries in strictly ascending order: of every user key that an accepted entry has, the
version accepted last and no other, and nothing else. -/
theorem flush_yields_latest {shelf : Shelf} {hash : UInt64 → Bytes → UInt64} {heights : Heights}
    {count hashCount : Nat} (ordered : shelf.order = .versioned) (positive : 0 < count)
    (made : CuckooTable.create shelf hash heights count hashCount = .ok table)
    (operations : List Operation) :
    ∃ now, (cuckoo table).run operations = cuckoo now ∧
      (now.isReadOnly = false → now.entriesForFlush = .error .flushBeforeReadOnly) ∧
      (now.isReadOnly = true → ∃ entries, now.entriesForFlush = .ok entries ∧
        KeyOrder.versioned.Sorted entries ∧
        (∀ entry ∈ accepted (cuckoo table) operations, ∃ userKey,
          entryUserKey entry = .ok userKey) ∧
        (∀ userKey, entries.filter (fun entry => decide (entryUserKey entry = .ok userKey))
          = (latest userKey (accepted (cuckoo table) operations)).toList) ∧
        ∀ entry ∈ entries, ∃ userKey, entryUserKey entry = .ok userKey) := by
  have initial := CuckooTable.create_holds made ordered positive
  obtain ⟨now, held, backup, ran, holds, _⟩ :=
    cuckoo_run initial (Made.cuckoo made).sound.vacant operations
  rw [List.nil_append] at holds
  refine ⟨now, ran, fun opened => ?_, fun closed => ?_⟩
  · simp only [CuckooTable.entriesForFlush, opened]
    rfl
  · obtain ⟨entries, flushed, sorted, perm⟩ := holds.flushed closed
    have distinct : entries.Pairwise fun a b => entryUserKey a ≠ entryUserKey b :=
      (perm.pairwise_iff Ne.symm).mpr holds.distinct
    refine ⟨entries, flushed, sorted, ?_, fun userKey => filter_userKey distinct fun entry => ?_, ?_⟩
    · exact accepted_userKey operations ⟨nofun, nofun⟩
    · rw [holds.latest_iff, perm.mem_iff]
    · exact fun entry member => holds.named (perm.mem_iff.mp member)

/-- A table whose backup took the second user key is flushed with the newer version of the first one,
from its slot, and the spilled entry. -/
theorem flush_yields_newer_version :
    let table : CuckooTable := {
      shelf := { order := .versioned, arena := { id := 0 } }
      log := [.creatingCuckooTable 1 1]
      index := { hash := fun _ _ => 0, hashCount := 1, slots := .empty 1, heights := fun _ => 1 } }
    let older : Bytes := [9, 0, 0, 0, 98, 1, 1, 0, 0, 0, 0, 0, 0, 0, 0, 0, 0]
    let newer : Bytes := [9, 0, 0, 0, 98, 1, 2, 0, 0, 0, 0, 0, 0, 0, 0, 0, 0]
    let other : Bytes := [9, 0, 0, 0, 97, 1, 3, 0, 0, 0, 0, 0, 0, 0, 0, 0, 0]
    ∃ now, (cuckoo table).run [.insert ⟨0, ⟨0⟩, older⟩, .insert ⟨0, ⟨1⟩, newer⟩,
        .insert ⟨0, ⟨2⟩, other⟩] = cuckoo now ∧ now.isReadOnly = true ∧
      ∃ entries, now.entriesForFlush = .ok entries ∧ KeyOrder.versioned.Sorted entries ∧
        entries.filter (fun entry => decide (entryUserKey entry = .ok [98])) = [newer] ∧
        entries.filter (fun entry => decide (entryUserKey entry = .ok [97])) = [other] := by
  intro table older newer other
  let operations : List Operation :=
    [.insert ⟨0, ⟨0⟩, older⟩, .insert ⟨0, ⟨1⟩, newer⟩, .insert ⟨0, ⟨2⟩, other⟩]
  have all : accepted (cuckoo table) operations = [older, newer, other] := by decide +kernel
  have made : CuckooTable.create table.shelf table.index.hash table.index.heights 1 1 = .ok table :=
    rfl
  obtain ⟨now, ran, _, flushed⟩ := flush_yields_latest rfl (by decide) made operations
  have closed : now.isReadOnly = true := by
    have full : ((cuckoo table).run operations).isReadOnly = true := by decide +kernel
    rwa [ran] at full
  obtain ⟨entries, done, sorted, _, each, _⟩ := flushed closed
  rw [all] at each
  have latestFirst : latest [98] [older, newer, other] = some newer := by decide +kernel
  have latestSecond : latest [97] [older, newer, other] = some other := by decide +kernel
  refine ⟨now, ran, closed, entries, done, sorted, ?_, ?_⟩
  · rw [each, latestFirst]
    rfl
  · rw [each, latestSecond]
    rfl

end MemTable

end WriteBuffer
