import Mathlib
import WriteBuffer.Proofs.EntryCodec

/-!
The two readers of entries side by side. The reader that cuts at the stated lengths finds a key and a
value wherever they end inside the entry (`Record.entryKey_eq_ok_iff`, `Record.entryValue_eq_ok_iff`).
The reader that checks accepts an entry exactly if the other one finds a key with a tag and a value that
ends with the entry, and the tag has the byte of a kind, and then both read the same
(`Record.readers_agree`). So entries that spell records can be compared with each other and with every
key that has a tag.
-/
namespace WriteBuffer

/-- An order that can compare all keys with room for a tag. -/
def KeyOrder.ComparesTagged (order : KeyOrder) : Prop :=
  ∀ {a b}, HasTag a → HasTag b → ∃ ordering, order.compareKeys a b = .ok ordering

theorem WellFormed.compareEntries_ok {order : KeyOrder} (compares : order.ComparesTagged)
    {a b : Bytes} (wellFormedA : WellFormed a) (wellFormedB : WellFormed b) :
    ∃ ordering, order.compareEntries a b = .ok ordering := by
  obtain ⟨keyA, cutA, taggedA⟩ := wellFormedA.hasTag
  obtain ⟨keyB, cutB, taggedB⟩ := wellFormedB.hasTag
  rw [order.compareEntries_eq cutB, order.compareEntryKey_eq cutA]
  exact compares taggedA taggedB

theorem WellFormed.compareEntryKey_ok {order : KeyOrder} (compares : order.ComparesTagged)
    {entry target : Bytes} (wellFormed : WellFormed entry) (tagged : HasTag target) :
    ∃ ordering, order.compareEntryKey entry target = .ok ordering := by
  obtain ⟨key, cut, taggedKey⟩ := wellFormed.hasTag
  rw [order.compareEntryKey_eq cut]
  exact compares taggedKey tagged

namespace Record

variable {entry key value : Bytes} {record : Record}

/-- A key is found if it ends inside the entry. -/
theorem entryKey_eq_ok_iff : entryKey entry = .ok key ↔
    lengthSize + statedKeySize entry ≤ entry.length ∧
      (entry.drop lengthSize).take (statedKeySize entry) = key := by
  simp only [entryKey, bind_eq_ok, lengthAt_eq_ok_iff, cut_eq_ok_iff]
  constructor
  · rintro ⟨length, ⟨_, rfl⟩, room, rfl⟩
    exact ⟨room, rfl⟩
  · rintro ⟨room, rfl⟩
    exact ⟨_, ⟨by omega, rfl⟩, room, rfl⟩

/-- A value is found if it ends inside the entry. -/
theorem entryValue_eq_ok_iff : entryValue entry = .ok value ↔
    valueAt entry + statedValueSize entry ≤ entry.length ∧
      (entry.drop (valueAt entry)).take (statedValueSize entry) = value := by
  simp only [entryValue, bind_eq_ok, lengthAt_eq_ok_iff, cut_eq_ok_iff]
  constructor
  · rintro ⟨keySize, ⟨_, rfl⟩, valueSize, ⟨_, rfl⟩, room, rfl⟩
    exact ⟨room, rfl⟩
  · rintro ⟨room, rfl⟩
    have begins : valueAt entry ≤ entry.length := Nat.le_of_add_right_le room
    simp only [valueAt] at begins
    exact ⟨_, ⟨by omega, rfl⟩, _, ⟨begins, rfl⟩, room, rfl⟩

/-- What is found in an entry that spells a record: its internal key and its value, which ends with the
entry. -/
theorem read_of_decode (spelled : decode entry = .ok record) :
    ∃ key, record.internalKey.encode = .ok key ∧ entryKey entry = .ok key ∧
      entryValue entry = .ok record.value ∧
      lengthSize + key.length + lengthSize + record.value.length = entry.length := by
  obtain ⟨key, keyFits, valueFits, decoded, rfl⟩ := decode_eq_ok_iff_layout.mp spelled
  obtain ⟨keySize, keyPart, valueSize, valuePart⟩ := layout_parts keyFits valueFits
  have size := length_layout key record.value
  refine ⟨key, (InternalKey.encode_decode decoded).2, entryKey_eq_ok_iff.mpr ⟨?_, ?_⟩,
    entryValue_eq_ok_iff.mpr ⟨?_, ?_⟩, size.symm⟩
  · rw [keySize, size]
    omega
  · rw [keySize, keyPart]
  · rw [valueAt, keySize, valueSize, size]
  · rw [valuePart, valueSize, List.take_length]

/-- An entry spells a record if a key with the tag of a kind is found in it, and a value that ends with
the entry. -/
theorem decode_of_read {kind : ValueKind} (keyFound : entryKey entry = .ok key) (tagged : HasTag key)
    (named : ValueKind.ofCode (tagPart key).toUInt8 = .ok kind)
    (valueFound : entryValue entry = .ok value)
    (ended : lengthSize + key.length + lengthSize + value.length = entry.length) :
    decode entry = .ok ⟨userPart key, tagPart key / 256, kind, value⟩ := by
  obtain ⟨keyRoom, rfl⟩ := entryKey_eq_ok_iff.mp keyFound
  obtain ⟨valueRoom, rfl⟩ := entryValue_eq_ok_iff.mp valueFound
  have keySize : ((entry.drop lengthSize).take (statedKeySize entry)).length
      = statedKeySize entry := by
    rw [List.length_take, List.length_drop]
    omega
  have valueSize : ((entry.drop (valueAt entry)).take (statedValueSize entry)).length
      = statedValueSize entry := by
    rw [List.length_take, List.length_drop]
    omega
  have begins : valueAt entry ≤ entry.length := Nat.le_of_add_right_le valueRoom
  have atLeast : tagSize ≤ statedKeySize entry := keySize ▸ tagged
  rw [keySize, valueSize] at ended
  have whole : (entry.drop (valueAt entry)).take (statedValueSize entry)
      = entry.drop (valueAt entry) := by
    refine List.take_of_length_le ?_
    rw [List.length_drop, ← ended, valueAt]
    omega
  rw [decode_eq, if_neg (by omega), if_neg (Nat.not_lt.mpr atLeast), if_neg (Nat.not_lt.mpr begins),
    InternalKey.decode_of_hasTag tagged, named, whole]
  simp [Except.map, Except.bind, valueAt, ended]

/-- The reader that checks accepts an entry exactly if the one that cuts at the stated lengths finds an
internal key, its user key and a value, the value ends with the entry, and the low byte of the tag is
that of a kind. Then the key found is the user key of the record and its tag, and the user key and the
value found are those of the record. Entries that are accepted can be compared with each other and with
all keys that have room for a tag, by every order that can compare such keys, as the versioned one can. -/
theorem readers_agree :
    (∀ entry, (∃ record, decode entry = .ok record) ↔
      ∃ key userKey value tag, entryKey entry = .ok key ∧ entryUserKey entry = .ok userKey ∧
        entryValue entry = .ok value ∧
        lengthSize + key.length + lengthSize + value.length = entry.length ∧
        tagOf key = .ok tag ∧ (tag.toUInt8 = 1 ∨ tag.toUInt8 = 2 ∨ tag.toUInt8 = 3)) ∧
    (∀ entry record, decode entry = .ok record →
      (∃ tag, packTag record.sequence record.kind = .ok tag ∧
        entryKey entry = .ok (record.userKey ++ littleEndian tagSize tag.toNat)) ∧
      entryUserKey entry = .ok record.userKey ∧ entryValue entry = .ok record.value) ∧
    KeyOrder.versioned.ComparesTagged ∧
    ∀ order : KeyOrder, order.ComparesTagged → ∀ entry, WellFormed entry →
      (∀ other, WellFormed other → ∃ ordering, order.compareEntries entry other = .ok ordering) ∧
      ∀ target, tagSize ≤ target.length →
        ∃ ordering, order.compareEntryKey entry target = .ok ordering := by
  refine ⟨fun entry => ⟨?_, ?_⟩, ?_, KeyOrder.versioned_totalOn.answers, ?_⟩
  · rintro ⟨record, spelled⟩
    obtain ⟨key, encoded, keyFound, valueFound, ended⟩ := read_of_decode spelled
    obtain ⟨tagged, _, _, code⟩ := InternalKey.decode_ok (InternalKey.decode_encode encoded)
    refine ⟨key, _, _, _, keyFound, entryUserKey_eq spelled, valueFound, ended, tagOf_eq tagged, ?_⟩
    rw [code]
    exact ValueKind.ofCode_isOk.mp ⟨_, ValueKind.ofCode_code _⟩
  · rintro ⟨key, userKey, value, tag, keyFound, userFound, valueFound, ended, tagRead, known⟩
    obtain ⟨_, sameKey, tagged, _⟩ := entryKey_of_entryUserKey userFound
    obtain rfl := Except.ok.inj (keyFound.symm.trans sameKey)
    obtain rfl := Except.ok.inj ((tagOf_eq tagged).symm.trans tagRead)
    obtain ⟨kind, named⟩ := ValueKind.ofCode_isOk.mpr known
    exact ⟨_, decode_of_read keyFound tagged named valueFound ended⟩
  · intro entry record spelled
    obtain ⟨key, encoded, keyFound, valueFound, _⟩ := read_of_decode spelled
    simp only [InternalKey.encode, bind_eq_ok, pure, Except.pure, Except.ok.injEq] at encoded
    obtain ⟨tag, packed, rfl⟩ := encoded
    exact ⟨⟨tag, packed, keyFound⟩, entryUserKey_eq spelled, valueFound⟩
  · intro order compares entry wellFormed
    exact ⟨fun other => wellFormed.compareEntries_ok compares,
      fun target => wellFormed.compareEntryKey_ok compares⟩

/-- An entry is read alike by both, and one with a byte behind it only by the one that cuts. -/
theorem readers_agree_on_put :
    let entry : Bytes := [9, 0, 0, 0, 97, 1, 7, 0, 0, 0, 0, 0, 0, 2, 0, 0, 0, 5, 6]
    decode entry = .ok ⟨[97], 7, .put, [5, 6]⟩ ∧ entryUserKey entry = .ok [97] ∧
      entryValue entry = .ok [5, 6] ∧ entryValue (entry ++ [0]) = .ok [5, 6] ∧
      (¬ ∃ record, decode (entry ++ [0]) = .ok record) ∧
      ∃ ordering, KeyOrder.versioned.compareEntries entry entry = .ok ordering := by
  intro entry
  obtain ⟨accepts, reads, tagged, compares⟩ := readers_agree
  have spelled : decode entry = .ok ⟨[97], 7, .put, [5, 6]⟩ := by decide +kernel
  have longer : entryValue (entry ++ [0]) = .ok [5, 6] := by decide +kernel
  obtain ⟨_, user, value⟩ := reads entry _ spelled
  refine ⟨spelled, user, value, longer, ?_, (compares _ tagged entry ⟨_, spelled⟩).1 entry ⟨_, spelled⟩⟩
  intro accepted
  obtain ⟨key, _, other, _, keyFound, _, valueFound, ended, _⟩ := (accepts _).mp accepted
  obtain rfl := Except.ok.inj (longer.symm.trans valueFound)
  have cut : entryKey (entry ++ [0]) = .ok [97, 1, 7, 0, 0, 0, 0, 0, 0] := by decide +kernel
  obtain rfl := Except.ok.inj (cut.symm.trans keyFound)
  simp [entry, lengthSize] at ended

end Record

end WriteBuffer
