import Mathlib
import WriteBuffer.Proofs.VersionedReads

/-!
Questions for internal keys. An ordered table looks for a key in its list, in its sorted handles or
in the one bucket that the user key of it may be in, and wherever it looks, it has a key exactly if
an accepted entry does (`MemTable.contains_exact`).
-/
namespace WriteBuffer

namespace MemTable

variable {order : KeyOrder} {placing : Option (Placement × Nat)} {taken : List Bytes}
  {keys : Bytes → Prop} {table : MemTable} {target userKey : Bytes}

/-- An ordered table has a key exactly if an entry that it holds is equal to it, provided that the
order tells keys of different user keys apart. -/
theorem Holds.contains_eq (holds : table.Holds order placing taken) (total : order.TotalOn keys)
    (readable : ∀ entry ∈ taken, HasKey keys entry) (untied : order.Untied taken)
    (held : keys target) (cut : userKeyOf target = .ok userKey) (places : Places placing userKey)
    (sameUser : ∀ entry ∈ taken, order.compareEntryKey entry target = .ok .eq →
      entryUserKey entry = .ok userKey) :
    ∃ answer, (table.contains target).2 = .ok answer ∧
      (answer = true ↔ ∃ entry ∈ taken, order.compareEntryKey entry target = .ok .eq) := by
  obtain ⟨rfl, rfl, index⟩ := holds
  cases table with
  | cuckoo table => exact index.elim
  | skipList table => exact index.contains_eq total readable held
  | vector table => exact VectorTable.contains_eq index total readable untied held
  | hashedSkipLists table =>
    obtain ⟨bucket, place⟩ := places.bucketOf_ok
    obtain ⟨rows, listed, arranges⟩ := index
    obtain ⟨answer, found, exactly⟩ :=
      HashedSkipTable.contains_eq arranges total readable held cut place
    exact ⟨answer, found, exactly.trans (arranges.1.exists_iff place sameUser)⟩
  | hashedChains table =>
    obtain ⟨bucket, place⟩ := places.bucketOf_ok
    obtain ⟨rows, listed, arranges⟩ := index
    obtain ⟨answer, found, exactly⟩ :=
      HashedChainTable.contains_eq arranges total readable held cut place
    exact ⟨answer, found, exactly.trans (arranges.1.exists_iff place sameUser)⟩

/-- An ordered table, after whatever was done to it, has an internal key exactly if an accepted entry
has it byte for byte. -/
theorem contains_exact (fresh : Fresh .versioned table) (operations : List Operation)
    (wellFormed : ∀ entry ∈ accepted table operations, WellFormed entry)
    (distinct : (accepted table operations).Pairwise fun a b => entryKey a ≠ entryKey b)
    {internalKey : Bytes} (tagged : HasTag internalKey)
    (places : Places table.placing (userPart internalKey)) :
    ∃ answer, ((table.run operations).contains internalKey).2 = .ok answer ∧
      (answer = true ↔ ∃ entry ∈ accepted table operations, entryKey entry = .ok internalKey) := by
  have readable : ∀ entry ∈ accepted table operations, HasKey HasTag entry :=
    fun entry member => (wellFormed entry member).hasTag
  have untied := KeyOrder.versioned_untied readable distinct
  have holds := run_holds fresh KeyOrder.versioned_totalOn operations readable fun _ => untied
  have equal_iff : ∀ entry ∈ accepted table operations,
      (KeyOrder.versioned.compareEntryKey entry internalKey = .ok .eq ↔
        entryKey entry = .ok internalKey) := by
    intro entry member
    obtain ⟨key, cut, taggedKey⟩ := readable entry member
    obtain ⟨ordering, answer, exactly⟩ :=
      KeyOrder.versioned_compareEntryKey (entryUserKey_eq cut taggedKey) tagged
    rw [answer, Except.ok.injEq, exactly]
  obtain ⟨answer, found, exactly⟩ := holds.contains_eq KeyOrder.versioned_totalOn readable untied
    tagged (userKeyOf_eq tagged) places fun entry member equal =>
      entryUserKey_eq ((equal_iff entry member).mp equal) tagged
  exact ⟨answer, found, exactly.trans (exists_congr fun entry =>
    and_congr_right fun member => equal_iff entry member)⟩

/-- A table has the key of an entry that it accepted. -/
theorem contains_accepted_key :
    let table := hashedChains {
      shelf := { order := .versioned, arena := { id := 0 } }
      index := { placement := { rule := .whole, hash := fun _ => 0 }, heads := .empty 1 } }
    let older : Bytes := [9, 0, 0, 0, 97, 1, 1, 0, 0, 0, 0, 0, 0, 0, 0, 0, 0]
    let newer : Bytes := [9, 0, 0, 0, 97, 1, 2, 0, 0, 0, 0, 0, 0, 0, 0, 0, 0]
    let operations : List Operation := [.insert ⟨0, ⟨0⟩, older⟩, .insert ⟨0, ⟨1⟩, newer⟩]
    accepted table operations = [older, newer] ∧
      ((table.run operations).contains [97, 1, 1, 0, 0, 0, 0, 0, 0]).2 = .ok true := by
  intro table older newer operations
  have both : accepted table operations = [older, newer] := by decide +kernel
  have fresh : Fresh .versioned table := @Fresh.hashedChains _ _ _ _ 1 0 rfl rfl
  have wellFormed : ∀ entry ∈ accepted table operations, WellFormed entry := by
    rw [both]
    intro entry member
    rcases List.mem_pair.mp member with rfl | rfl
    · exact ⟨⟨[97], 1, .put, []⟩, by decide +kernel⟩
    · exact ⟨⟨[97], 2, .put, []⟩, by decide +kernel⟩
  have distinct : (accepted table operations).Pairwise fun a b => entryKey a ≠ entryKey b := by
    rw [both]
    simp only [List.pairwise_pair]
    decide +kernel
  have places : Places table.placing [97] := by
    intro placement count same
    obtain ⟨rfl, rfl⟩ := Prod.mk.inj (Option.some.inj same)
    exact ⟨by decide, [97], rfl⟩
  obtain ⟨answer, found, exactly⟩ := contains_exact fresh operations wellFormed distinct
    (show HasTag [97, 1, 1, 0, 0, 0, 0, 0, 0] by simp [HasTag, tagSize]) places
  refine ⟨both, found.trans (congrArg Except.ok (exactly.mpr ⟨older, ?_, by decide +kernel⟩))⟩
  rw [both]
  exact List.mem_cons_self

end MemTable

end WriteBuffer
