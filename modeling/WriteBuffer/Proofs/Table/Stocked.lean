import Mathlib
import WriteBuffer.Proofs.Cursor.Unfailing
import WriteBuffer.Proofs.WholeInserts

/-!
Cuckoo tables with slots to choose from, in which all entries have keys (`CuckooTable.Stocked`). Any
insert keeps them so (`CuckooTable.Stocked.insert`), every search in the slots and in the backup gives
an answer (`CuckooTable.Stocked.contains_ok`, `CuckooTable.Stocked.get_ok`), and the index refuses
repeated entries only (`CuckooTable.Stocked.refused`).
-/
namespace WriteBuffer

/-- The key of an entry ties with that of a published one. -/
def Shelf.Repeats (shelf : Shelf) (entry : Bytes) : Prop :=
  ∃ handle other, shelf.arena.get handle = .ok other ∧ shelf.order.Ties other entry

namespace CuckooTable

variable {table : CuckooTable} {draft : Draft} {internalKey userKey : Bytes}

/-- A cuckoo table finds slots for every user key, and all its entries have keys. -/
structure Stocked (table : CuckooTable) : Prop where
  chooses : table.index.Chooses
  legible : table.Legible
  backup : ∀ backup ∈ table.index.backup,
    ∃ taken, backup.Holds table.shelf taken ∧ ∀ entry ∈ taken, HasKey HasTag entry

theorem entryAt_eq_some {slot : Nat} {entry : Bytes} (inSlot : table.entryAt slot = .ok (some entry)) :
    ∃ handle, table.shelf.arena.get handle = .ok entry := by
  rw [entryAt] at inSlot
  cases full : table.index.slots.get? slot with
  | none => simp [full] at inSlot
  | some handle =>
    refine ⟨handle, ?_⟩
    cases read : table.shelf.arena.get handle with
    | error failure => simp [full, read, Except.map] at inSlot
    | ok other => simpa [full, read, Except.map] using inSlot

theorem Stocked.keeps (stocked : table.Stocked) {shelf : Shelf} {gate : Gate} {log : List Event}
    (order : shelf.order = table.shelf.order) (keeps : table.shelf.arena.Keeps shelf.arena) :
    Stocked { table with shelf, gate, log } where
  chooses := stocked.chooses
  legible := by
    intro slot handle full
    obtain ⟨entry, userKey, read, user⟩ := stocked.legible full
    exact ⟨entry, userKey, keeps read, user⟩
  backup := by
    intro backup present
    obtain ⟨taken, holds, readable⟩ := stocked.backup backup present
    exact ⟨taken, holds.keeps order keeps, readable⟩

/-- Any insert keeps a table stocked. -/
theorem Stocked.insert (stocked : table.Stocked) (vacant : table.gate.occupied = false)
    (draft : Draft) : (insert draft table).1.Stocked := by
  rcases @insert_houses draft table vacant stocked.legible with
    ⟨failure, failed, _⟩ | ⟨stored, now, userKey, among, stays, read, user, _, housed, legible, done⟩
  · rw [failed]
    exact stocked
  · rw [done]
    have before : ∀ backup ∈ stored.index.backup,
        ∃ taken, backup.Holds stored.shelf taken ∧ ∀ entry ∈ taken, HasKey HasTag entry := by
      rw [stays.index]
      intro backup present
      obtain ⟨taken, holds, readable⟩ := stocked.backup backup present
      exact ⟨taken, holds.keeps stays.order stays.keeps, readable⟩
    have chooses : stored.index.Chooses := stays.index ▸ stocked.chooses
    obtain ⟨settled, settles, left⟩ := bind_eq_ok.mp housed
    cases settled with
    | some settled =>
      obtain rfl := Except.ok.inj left
      obtain ⟨slots, longestChain, rfl, size, _⟩ := settle_changes settles
      refine ⟨?_, legible, before⟩
      rw [CuckooIndex.Chooses] at chooses ⊢
      exact size ▸ chooses
    | none =>
      obtain ⟨backup, log, spilled, holds⟩ := spill_ok stored read
      obtain rfl := Except.ok.inj (spilled.symm.trans left)
      obtain ⟨key, cut, tagged, _⟩ := entryKey_of_entryUserKey user
      refine ⟨chooses, legible, ?_⟩
      intro other present
      obtain rfl := Option.some.inj present
      exact ⟨_, holds, fun entry member => List.mem_singleton.mp member ▸ ⟨key, cut, tagged⟩⟩

/-- Every search in the slots and in the backup gives an answer. -/
theorem Stocked.contains_ok (stocked : table.Stocked) (total : table.shelf.order.TotalOn HasTag)
    (tagged : HasTag internalKey) : ∃ answer, table.contains internalKey = .ok answer := by
  obtain ⟨slots, shown, named⟩ := Legible.shows stocked.legible
  have answers : ∀ slot entry, slots slot = some entry → ∃ passed,
      (do return (← table.shelf.order.compareEntryKey entry internalKey) == .eq
        : Except Failure Bool) = .ok passed ∧
        (passed = true ↔ table.shelf.order.compareEntryKey entry internalKey = .ok .eq) := by
    intro slot entry full
    obtain ⟨userKey, user⟩ := named full
    obtain ⟨key, cut, tagKey, _⟩ := entryKey_of_entryUserKey user
    obtain ⟨ordering, answer⟩ := total.answers tagKey tagged
    rw [KeyOrder.compareEntryKey_eq _ cut, answer]
    exact ⟨_, rfl, by cases ordering <;> simp⟩
  simp only [contains, userKeyOf_eq tagged, stocked.chooses.candidates_eq, bind, Except.bind]
  rcases shown.findSlot_cases answers (table.index.places (userPart internalKey)) with
    ⟨slot, entry, found, _⟩ | ⟨nothing, _⟩
  · simp only [bind, Except.bind] at found
    simp only [found, Option.isSome_some, if_true]
    exact ⟨true, rfl⟩
  · simp only [bind, Except.bind] at nothing
    simp only [nothing, Option.isSome_none, Bool.false_eq_true, if_false]
    cases present : table.index.backup with
    | none => exact ⟨false, rfl⟩
    | some backup =>
      obtain ⟨taken, holds, readable⟩ := stocked.backup backup present
      exact (holds.contains_eq total readable tagged).imp fun _ found => found.1

/-- Every visitor is shown something. -/
theorem Stocked.get_ok (stocked : table.Stocked) (total : table.shelf.order.TotalOn HasTag)
    (userKey : Bytes) (tagged : HasTag internalKey) (goesOn : List Bytes → Bool) :
    ∃ shown, table.get userKey internalKey goesOn = .ok shown := by
  rcases Legible.findUserKey_cases stocked.legible (stocked.chooses.candidates_eq userKey) with
    ⟨slot, entry, found, _⟩ | ⟨nothing, _⟩
  · exact ⟨[entry], by simp only [get, found, bind, Except.bind]; rfl⟩
  · simp only [get, nothing, bind, Except.bind]
    cases present : table.index.backup with
    | none => exact ⟨[], rfl⟩
    | some backup =>
      obtain ⟨taken, ⟨rows, entries, arranges⟩, readable⟩ := stocked.backup backup present
      have readableEntries : ∀ entry ∈ entries, HasKey HasTag entry := fun entry member =>
        readable entry (arranges.all.mem_iff.mp member)
      have unfailing := (arranges.follows total readable).unfailing_sorted total readableEntries
        arranges.sorted
      exact unfailing.visitFrom ⟨entries.length, by simp [inside, nodeAt]⟩ tagged goesOn

/-- Only an entry that repeats a key is refused by the index. -/
theorem Stocked.refused (stocked : table.Stocked) (total : table.shelf.order.TotalOn HasTag)
    {entry : Bytes} (hasKey : HasKey HasTag entry) {failure : Failure}
    (failed : table.refuseRepeated entry = .error failure) :
    failure = .duplicateKey .cuckooTable ∧ table.shelf.Repeats entry := by
  obtain ⟨key, cut, tagged⟩ := hasKey
  have user := entryUserKey_eq cut tagged
  simp only [refuseRepeated, user, bind, Except.bind] at failed
  rcases Legible.findUserKey_cases stocked.legible (stocked.chooses.candidates_eq (userPart key)) with
    ⟨slot, existing, found, _, inSlot, named⟩ | ⟨nothing, _⟩
  · obtain ⟨old, oldCut, oldTagged, _⟩ := entryKey_of_entryUserKey named
    obtain ⟨ordering, answer⟩ := total.answers oldTagged tagged
    have compared : table.shelf.order.compareEntries existing entry = .ok ordering := by
      rw [KeyOrder.compareEntries_eq _ cut, KeyOrder.compareEntryKey_eq _ oldCut, answer]
    simp only [found, compared] at failed
    split at failed
    · next same =>
      obtain rfl : ordering = .eq := by simpa using same
      obtain ⟨handle, read⟩ := entryAt_eq_some inSlot
      exact ⟨(Except.error.inj failed).symm, handle, existing, read, compared⟩
    · cases failed
  · simp only [nothing] at failed
    cases failed

end CuckooTable

end WriteBuffer
