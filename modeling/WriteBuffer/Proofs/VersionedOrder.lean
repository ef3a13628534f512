import Mathlib
import WriteBuffer.Bytes.Lemmas
import WriteBuffer.Proofs.EntryOrder

/-!
The versioned order on internal keys. It is total on all byte strings with room for a tag
(`versioned_totalOn`) and equal on identical ones only (`versioned_eq_iff`), and an entry that is
not above another one has no greater user key (`userPart_le_of_notAbove`).
-/
namespace WriteBuffer

def userPart (key : Bytes) : Bytes := key.take (key.length - tagSize)

/-- The tag as a number. -/
def tagPart (key : Bytes) : UInt64 :=
  UInt64.ofNat (ofLittleEndian (key.drop (key.length - tagSize)))

theorem userKeyOf_eq {key : Bytes} (tagged : HasTag key) : userKeyOf key = .ok (userPart key) := by
  simp [userKeyOf, show tagSize ≤ key.length from tagged, userPart]

theorem tagOf_eq {key : Bytes} (tagged : HasTag key) : tagOf key = .ok (tagPart key) := by
  simp [tagOf, show tagSize ≤ key.length from tagged, tagPart]

theorem hasTag_of_userKeyOf {key userKey : Bytes} (cut : userKeyOf key = .ok userKey) :
    HasTag key := by
  by_contra short
  simp [userKeyOf, show ¬ tagSize ≤ key.length from short] at cut

theorem hasTag_of_isInternalKey {key : Bytes} (internal : IsInternalKey key) : HasTag key := by
  obtain ⟨decoded, read⟩ := internal
  by_contra short
  simp [InternalKey.decode, userKeyOf, tagOf, show ¬ tagSize ≤ key.length from short] at read

theorem entryKey_of_entryUserKey {entry userKey : Bytes} (cut : entryUserKey entry = .ok userKey) :
    ∃ key, entryKey entry = .ok key ∧ HasTag key ∧ userPart key = userKey := by
  simp only [entryUserKey, bind, Except.bind] at cut
  split at cut
  · cases cut
  · next key found =>
    have tagged := hasTag_of_userKeyOf cut
    rw [userKeyOf_eq tagged] at cut
    exact ⟨key, found, tagged, Except.ok.inj cut⟩

theorem eq_outOfRange_of_entryUserKey {entry : Bytes} {failure : Failure}
    (failed : entryUserKey entry = .error failure) : failure = .outOfRange := by
  have ofKey : ∀ {reason}, entryKey entry = .error reason → reason = .outOfRange := by
    intro reason failed
    simp only [entryKey, lengthAt, cut, bind, Except.bind] at failed
    split at failed
    · next same => split at same <;> simp_all
    · split at failed <;> simp_all
  cases found : entryKey entry with
  | error reason =>
    simp only [entryUserKey, found, bind, Except.bind, Except.error.injEq] at failed
    exact failed ▸ ofKey found
  | ok key =>
    simp only [entryUserKey, found, bind, Except.bind, userKeyOf] at failed
    split at failed <;> simp_all

theorem entryUserKey_eq {entry key : Bytes} (cut : entryKey entry = .ok key) (tagged : HasTag key) :
    entryUserKey entry = .ok (userPart key) := by
  simp only [entryUserKey, cut, bind, Except.bind, userKeyOf_eq tagged]

/-- The number that a tag spells determines its bytes. -/
theorem drop_eq_of_tagPart_eq {a b : Bytes} (taggedA : HasTag a) (taggedB : HasTag b)
    (same : tagPart a = tagPart b) :
    a.drop (a.length - tagSize) = b.drop (b.length - tagSize) := by
  have sizeA : (a.drop (a.length - tagSize)).length = tagSize := by
    simp only [HasTag] at taggedA
    rw [List.length_drop]
    omega
  have sizeB : (b.drop (b.length - tagSize)).length = tagSize := by
    simp only [HasTag] at taggedB
    rw [List.length_drop]
    omega
  have boundA := ofLittleEndian_lt (a.drop (a.length - tagSize))
  have boundB := ofLittleEndian_lt (b.drop (b.length - tagSize))
  rw [sizeA] at boundA
  rw [sizeB] at boundB
  simp only [tagSize] at boundA boundB
  have numbers : ofLittleEndian (a.drop (a.length - tagSize))
      = ofLittleEndian (b.drop (b.length - tagSize)) := by
    have equal := congrArg UInt64.toNat same
    simp only [tagPart, UInt64.toNat_ofNat'] at equal
    rw [Nat.mod_eq_of_lt (by simpa [tagSize] using boundA),
      Nat.mod_eq_of_lt (by simpa [tagSize] using boundB)] at equal
    exact equal
  rw [← littleEndian_ofLittleEndian (a.drop _), ← littleEndian_ofLittleEndian (b.drop _), sizeA,
    sizeB, numbers]

namespace KeyOrder

/-- User keys in ascending order, tags of one user key in descending order. -/
def rank : Bytes → Bytes → Ordering :=
  compareLex (compareOn userPart) fun a b => compareOn tagPart b a

instance : Std.TransCmp rank :=
  inferInstanceAs (Std.TransCmp (compareLex (compareOn userPart) fun a b => compareOn tagPart b a))

theorem versioned_eq {a b : Bytes} (taggedA : HasTag a) (taggedB : HasTag b) :
    versioned.compareKeys a b = .ok (rank a b) := by
  simp only [versioned, newestFirst, userKeyOf_eq taggedA, userKeyOf_eq taggedB, tagOf_eq taggedA,
    tagOf_eq taggedB]
  rfl

theorem versioned_totalOn : versioned.TotalOn HasTag where
  answers taggedA taggedB := ⟨_, versioned_eq taggedA taggedB⟩
  swap := by
    intro a b ordering taggedA taggedB answer
    rw [versioned_eq taggedA taggedB] at answer
    have swapped : rank b a = (rank a b).swap := Std.OrientedCmp.eq_swap
    rw [versioned_eq taggedB taggedA, swapped, Except.ok.inj answer]
  trans := by
    intro a b c taggedA taggedB taggedC ab bc
    rw [versioned_eq taggedA taggedB] at ab
    rw [versioned_eq taggedB taggedC] at bc
    rw [versioned_eq taggedA taggedC]
    have rankAB : (rank a b).isLE := Ordering.isLE_iff_ne_gt.mpr (by simpa using ab)
    have rankBC : (rank b c).isLE := Ordering.isLE_iff_ne_gt.mpr (by simpa using bc)
    have rankAC := Std.TransCmp.isLE_trans rankAB rankBC
    simpa using Ordering.isLE_iff_ne_gt.mp rankAC

/-- Only identical keys are equal in the versioned order. -/
theorem versioned_eq_iff {a b : Bytes} (taggedA : HasTag a) (taggedB : HasTag b) :
    versioned.compareKeys a b = .ok .eq ↔ a = b := by
  rw [versioned_eq taggedA taggedB]
  constructor
  · intro equal
    have both : compareOn userPart a b = .eq ∧ compareOn tagPart b a = .eq := by
      simpa [rank, compareLex] using equal
    have users : userPart a = userPart b := Std.compare_eq_iff_eq.mp both.1
    have tags : tagPart b = tagPart a := Std.compare_eq_iff_eq.mp both.2
    rw [← List.take_append_drop (a.length - tagSize) a,
      ← List.take_append_drop (b.length - tagSize) b,
      drop_eq_of_tagPart_eq taggedA taggedB tags.symm]
    exact congrArg (· ++ _) users
  · rintro rfl
    exact congrArg Except.ok (Std.ReflCmp.compare_self : rank a a = .eq)

theorem versioned_compareEntryKey {entry userKey target : Bytes}
    (cut : entryUserKey entry = .ok userKey) (tagged : HasTag target) :
    ∃ ordering, versioned.compareEntryKey entry target = .ok ordering ∧
      (ordering = .eq ↔ entryKey entry = .ok target) := by
  obtain ⟨key, found, taggedKey, _⟩ := entryKey_of_entryUserKey cut
  refine ⟨rank key target, ?_, ?_⟩
  · rw [compareEntryKey_eq versioned found, versioned_eq taggedKey tagged]
  · rw [found, Except.ok.injEq, ← versioned_eq_iff taggedKey tagged, versioned_eq taggedKey tagged,
      Except.ok.injEq]

theorem compareEntryKey_untagged {entry target : Bytes} (hasKey : HasKey HasTag entry)
    (untagged : ¬ HasTag target) :
    versioned.compareEntryKey entry target = .error .outOfRange := by
  obtain ⟨key, cut, tagged⟩ := hasKey
  have short : userKeyOf target = .error .outOfRange := if_neg untagged
  rw [compareEntryKey_eq versioned cut]
  simp only [versioned, newestFirst, userKeyOf_eq tagged, short, bind, Except.bind]

theorem versioned_untied {entries : List Bytes} (readable : ∀ entry ∈ entries, HasKey HasTag entry)
    (distinct : entries.Pairwise fun a b => entryKey a ≠ entryKey b) :
    versioned.Untied entries := by
  refine distinct.imp_of_mem ?_
  intro a b inA inB different ties
  obtain ⟨keyA, cutA, taggedA⟩ := readable a inA
  obtain ⟨keyB, cutB, taggedB⟩ := readable b inB
  rw [Ties, compareEntries_eq _ cutB, compareEntryKey_eq _ cutA] at ties
  exact different (by rw [cutA, cutB, (versioned_eq_iff taggedA taggedB).mp ties])

/-- A key that is not above another one has no greater user key. -/
theorem userPart_le_of_notAbove {a b : Bytes} (taggedA : HasTag a) (taggedB : HasTag b)
    (notAbove : versioned.compareKeys a b ≠ .ok .gt) :
    compare (userPart a) (userPart b) ≠ .gt := by
  rw [versioned_eq taggedA taggedB] at notAbove
  intro greater
  apply notAbove
  simp [rank, compareLex, compareOn, greater]

end KeyOrder

end WriteBuffer
