import Mathlib
import WriteBuffer.Proofs.KeyEncoding

/-!
Where a lookup stands among the versions of its user key. A key is below a lookup if its user key is
smaller or if it is a version from after the time of the lookup (`InternalKey.below_lookup_iff`). In
entries in order, the first one that is not below the lookup is therefore the newest version that the
lookup may see, if it may see any (`first_not_below`). `LookupKey.splits_versions` puts the two
together.
-/
namespace WriteBuffer

namespace InternalKey

variable {a b : InternalKey}

/-- A key is below a lookup exactly if its user key is smaller, or the same and its version too new for
the lookup. -/
theorem below_lookup_iff (key : InternalKey) (userKey : Bytes) (sequence : UInt64) :
    compare key ⟨userKey, sequence, .merge⟩ = .lt ↔
      Ord.compare key.userKey userKey = .lt ∨
        (key.userKey = userKey ∧ sequence < key.sequence) := by
  rw [← not_iff_not, ← ne_eq, not_below_lookup]
  cases users : Ord.compare key.userKey userKey with
  | eq => simp [Std.compare_eq_iff_eq.mp users]
  | lt | gt =>
    have different : key.userKey ≠ userKey := by
      intro same
      rw [Std.compare_eq_iff_eq.mpr same] at users
      cases users
    simp [different]

theorem userKey_le_of_notAbove (notAbove : compare a b ≠ .gt) :
    Ord.compare a.userKey b.userKey ≠ .gt := by
  intro greater
  apply notAbove
  simp [compare, greater]

theorem newest_of_notAbove (same : a.userKey = b.userKey) (notAbove : compare a b ≠ .gt) :
    b.sequence < a.sequence ∨ (b.sequence = a.sequence ∧ b.kind.code ≤ a.kind.code) := by
  cases ordering : compare a b with
  | lt => exact (newer_of_below same ordering).imp_right (And.imp_right UInt8.le_of_lt)
  | eq =>
    obtain rfl := compare_eq_iff.mp ordering
    exact .inr ⟨rfl, UInt8.le_refl _⟩
  | gt => exact absurd ordering notAbove

end InternalKey

/-- An entry is a version of a user key that is visible as of a sequence number. -/
structure IsVisible (userKey : Bytes) (sequence : UInt64) (entry : Bytes) (version : InternalKey) :
    Prop where
  spells : SpellsKey entry version
  same : version.userKey = userKey
  early : version.sequence ≤ sequence

section First

variable {target userKey first entry : Bytes} {sequence : UInt64} {entries : List Bytes}
  {version : InternalKey}

/-- No visible version is below the lookup. -/
theorem IsVisible.not_below (visible : IsVisible userKey sequence entry version)
    (lookup : InternalKey.decode target = .ok ⟨userKey, sequence, .merge⟩) :
    KeyOrder.versioned.compareEntryKey entry target ≠ .ok .lt := by
  rw [visible.spells.compareEntryKey_eq lookup, ne_eq, Except.ok.injEq]
  exact (InternalKey.not_below_lookup ..).mpr (.inr ⟨visible.same, visible.early⟩)

/-- Of entries in order, the first one that is not below a lookup is not above any visible version. -/
theorem notAbove_visible
    (lookup : InternalKey.decode target = .ok ⟨userKey, sequence, .merge⟩)
    (ascending : entries.Pairwise fun a b => KeyOrder.versioned.compareEntries a b ≠ .ok .gt)
    (found : entries.find? (KeyOrder.versioned.compareEntryKey · target ≠ .ok .lt) = some first)
    (spelled : SpellsKey first version) {other : InternalKey} (member : entry ∈ entries)
    (visible : IsVisible userKey sequence entry other) :
    InternalKey.compare version other ≠ .gt := by
  obtain ⟨_, front, back, rfl, below⟩ := List.find?_eq_some_iff_append.mp found
  rcases List.mem_append.mp member with before | after
  · exact absurd (by simpa using below entry before) (visible.not_below lookup)
  · rcases List.mem_cons.mp after with rfl | behind
    · obtain rfl := spelled.unique visible.spells
      simp [InternalKey.compare_eq_iff.mpr]
    · have inOrder := (List.pairwise_cons.mp (List.pairwise_append.mp ascending).2.1).1 entry behind
      rw [spelled.compareEntries_eq visible.spells] at inOrder
      exact fun above => inOrder (congrArg Except.ok above)

/-- Of entries in order, the first one that is not below a lookup is the newest visible version, if
there is any. -/
theorem first_not_below
    (lookup : InternalKey.decode target = .ok ⟨userKey, sequence, .merge⟩)
    (readable : ∀ entry ∈ entries, ∃ version, SpellsKey entry version)
    (ascending : entries.Pairwise fun a b => KeyOrder.versioned.compareEntries a b ≠ .ok .gt)
    (member : entry ∈ entries) (visible : IsVisible userKey sequence entry version) :
    ∃ first newest,
      entries.find? (KeyOrder.versioned.compareEntryKey · target ≠ .ok .lt) = some first ∧
      IsVisible userKey sequence first newest ∧
      ∀ other ∈ entries, ∀ older, IsVisible userKey sequence other older →
        older.sequence < newest.sequence ∨
          (older.sequence = newest.sequence ∧ older.kind.code ≤ newest.kind.code) := by
  have isFound : (entries.find? (KeyOrder.versioned.compareEntryKey · target ≠ .ok .lt)).isSome := by
    refine List.find?_isSome.mpr ⟨entry, member, ?_⟩
    simpa using visible.not_below lookup
  obtain ⟨first, found⟩ := Option.isSome_iff_exists.mp isFound
  obtain ⟨newest, spelled⟩ := readable first (List.mem_of_find?_eq_some found)
  have notBelow : InternalKey.compare newest ⟨userKey, sequence, .merge⟩ ≠ .lt := by
    have answer := List.find?_some found
    rw [spelled.compareEntryKey_eq lookup] at answer
    simpa using answer
  have notGreater := InternalKey.userKey_le_of_notAbove
    (notAbove_visible lookup ascending found spelled member visible)
  rw [visible.same] at notGreater
  obtain ⟨same, early⟩ :=
    ((InternalKey.not_below_lookup ..).mp notBelow).resolve_left notGreater
  refine ⟨first, newest, found, ⟨spelled, same, early⟩, ?_⟩
  intro other inEntries older isVisible
  exact InternalKey.newest_of_notAbove (same.trans isVisible.same.symm)
    (notAbove_visible lookup ascending found spelled inEntries isVisible)

end First

namespace LookupKey

/-- A lookup names its user key and its time, and splits the versions of the user key there: the entries
below it are those of smaller user keys and the versions from later on, and the only version equal to it
is the merge at that very time. So in entries in order, the first one that is not below the lookup is
the newest version that it may see, if there is any. The key of an entry that was written for a record
is that of the record exactly if its length can be stated. -/
theorem splits_versions (userKey : Bytes) {sequence : UInt64} (low : sequence ≤ maxSequence) :
    ∃ key, LookupKey.of userKey sequence = .ok key ∧ key.userKey = .ok userKey ∧
      key.sequence = .ok sequence ∧
      (∀ record entry, Record.encode record = .ok entry →
        (SpellsKey entry record.internalKey ↔ record.KeyFits)) ∧
      (∀ entry version, SpellsKey entry version →
        ∃ ordering, KeyOrder.versioned.compareEntryKey entry key.internalKey = .ok ordering ∧
          (ordering = .lt ↔ compare version.userKey userKey = .lt ∨
            (version.userKey = userKey ∧ sequence < version.sequence)) ∧
          (ordering = .eq ↔ version.userKey = userKey ∧ version.sequence = sequence ∧
            version.kind = .merge)) ∧
      ∀ entries : List Bytes, (∀ entry ∈ entries, ∃ version, SpellsKey entry version) →
        (entries.Pairwise fun a b => KeyOrder.versioned.compareEntries a b ≠ .ok .gt) →
        (∃ entry ∈ entries, ∃ version, IsVisible userKey sequence entry version) →
        ∃ first newest,
          entries.find? (KeyOrder.versioned.compareEntryKey · key.internalKey ≠ .ok .lt)
            = some first ∧
          IsVisible userKey sequence first newest ∧
          ∀ other ∈ entries, ∀ older, IsVisible userKey sequence other older →
            older.sequence < newest.sequence ∨
              (older.sequence = newest.sequence ∧ older.kind.code ≤ newest.kind.code) := by
  obtain ⟨key, looked, user, lookup⟩ := @LookupKey.of_ok userKey _ low
  obtain ⟨tagged, _, time, _⟩ := InternalKey.decode_ok lookup
  refine ⟨key, looked, user, ?_, ?_, ?_, ?_⟩
  · simp only [LookupKey.sequence, tagOf_eq tagged, bind, Except.bind, unpackTag, time, pure,
      Except.pure]
  · intro record entry encoded
    refine ⟨fun spelled => ?_, Record.encode_ok encoded⟩
    exact (Record.entryUserKey_iff_keyFits encoded).mp spelled.entryUserKey_eq
  · intro entry version spelled
    refine ⟨_, spelled.compareEntryKey_eq lookup, InternalKey.below_lookup_iff .., ?_⟩
    rw [InternalKey.compare_eq_iff, InternalKey.mk.injEq]
  · rintro entries readable ascending ⟨entry, member, version, visible⟩
    exact first_not_below lookup readable ascending member visible

/-- Of three versions, a lookup as of the second one comes to it past the first. -/
theorem splits_versions_second_of_three :
    let newer : Bytes := [9, 0, 0, 0, 97, 1, 7, 0, 0, 0, 0, 0, 0, 0, 0, 0, 0]
    let deleted : Bytes := [9, 0, 0, 0, 97, 2, 5, 0, 0, 0, 0, 0, 0, 0, 0, 0, 0]
    let older : Bytes := [9, 0, 0, 0, 97, 1, 3, 0, 0, 0, 0, 0, 0, 0, 0, 0, 0]
    (5 : UInt64) ≤ maxSequence ∧ ∃ key first newest, LookupKey.of [97] 5 = .ok key ∧
      KeyOrder.versioned.compareEntryKey newer key.internalKey = .ok .lt ∧
      [newer, deleted, older].find?
        (KeyOrder.versioned.compareEntryKey · key.internalKey ≠ .ok .lt) = some first ∧
      IsVisible [97] 5 first newest ∧ newest.sequence = 5 := by
  intro newer deleted older
  have low : (5 : UInt64) ≤ maxSequence := by decide
  obtain ⟨key, looked, _, _, _, compared, newestFirst⟩ := splits_versions [97] low
  have spellsNewer : SpellsKey newer ⟨[97], 7, .put⟩ :=
    @Record.decode_ok newer ⟨[97], 7, .put, []⟩ (by decide +kernel)
  have spellsDeleted : SpellsKey deleted ⟨[97], 5, .delete⟩ :=
    @Record.decode_ok deleted ⟨[97], 5, .delete, []⟩ (by decide +kernel)
  have spellsOlder : SpellsKey older ⟨[97], 3, .put⟩ :=
    @Record.decode_ok older ⟨[97], 3, .put, []⟩ (by decide +kernel)
  have visible : IsVisible [97] 5 deleted ⟨[97], 5, .delete⟩ := ⟨spellsDeleted, rfl, by decide⟩
  have member : deleted ∈ [newer, deleted, older] := by simp
  obtain ⟨first, newest, found, isVisible, atLeast⟩ := newestFirst [newer, deleted, older]
    (by simpa using ⟨⟨_, spellsNewer⟩, ⟨_, spellsDeleted⟩, ⟨_, spellsOlder⟩⟩)
    (by decide +kernel) ⟨deleted, member, _, visible⟩
  obtain ⟨ordering, answer, below, _⟩ := compared newer _ spellsNewer
  have isBelow := below.mpr (.inr ⟨rfl, by decide⟩)
  refine ⟨low, key, first, newest, looked, isBelow ▸ answer, found, isVisible, ?_⟩
  rcases atLeast deleted member _ visible with later | ⟨same, _⟩
  · exact absurd isVisible.early (UInt64.not_le.mpr later)
  · exact same.symm

end LookupKey

end WriteBuffer
