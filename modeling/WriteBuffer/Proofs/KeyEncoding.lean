import Mathlib
import WriteBuffer.Proofs.WellFormed

/-!
Internal keys and their encoded forms. The bytes that spell an internal key are those with room for
a tag and with the byte of a kind where the tag begins (`InternalKey.spelled_iff`), each of them is
the encoded form of the one key that it spells (`InternalKey.encode_decode`), and the versioned order
puts encoded forms as the keys themselves are ordered (`InternalKey.encoding_orderIso`).
-/
namespace WriteBuffer

theorem userPart_append_tagPart {key : Bytes} (tagged : HasTag key) :
    userPart key ++ littleEndian tagSize (tagPart key).toNat = key := by
  have size : (key.drop (key.length - tagSize)).length = tagSize := by
    simp only [HasTag] at tagged
    rw [List.length_drop]
    omega
  have bound := ofLittleEndian_lt (key.drop (key.length - tagSize))
  rw [size] at bound
  have number : (tagPart key).toNat = ofLittleEndian (key.drop (key.length - tagSize)) := by
    rw [tagPart, UInt64.toNat_ofNat']
    exact Nat.mod_eq_of_lt bound
  have back := littleEndian_ofLittleEndian (key.drop (key.length - tagSize))
  rw [size] at back
  rw [number, back, userPart, List.take_append_drop]

theorem getElem?_tag {key : Bytes} (tagged : HasTag key) :
    key[key.length - tagSize]? = some (tagPart key).toUInt8 := by
  have low : (littleEndian tagSize (tagPart key).toNat)[0]? = some (tagPart key).toUInt8 := by
    simp only [tagSize, littleEndian, List.getElem?_cons_zero, Option.some.injEq]
    apply UInt8.toNat_inj.mp
    simp
  have front : (userPart key).length = key.length - tagSize := by
    rw [userPart, List.length_take]
    omega
  rw [← front, ← low]
  nth_rewrite 1 [← userPart_append_tagPart tagged]
  rw [List.getElem?_append_right (Nat.le_refl _), Nat.sub_self]

theorem packTag_unpackTag {tag : UInt64} {kind : ValueKind} (code : tag.toUInt8 = kind.code) :
    packTag (tag / 256) kind = .ok tag := by
  have quotient : (tag / 256).toNat = tag.toNat / 256 := UInt64.toNat_div ..
  have bound := tag.toNat_lt
  have low : tag / 256 ≤ maxSequence := by
    rw [UInt64.le_iff_toNat_le, quotient]
    simp only [maxSequence, UInt64.reduceToNat]
    omega
  have number : tag / 256 * 256 + kind.code.toUInt64 = tag := by
    apply UInt64.toNat_inj.mp
    rw [← code]
    simp only [UInt64.toNat_add, UInt64.toNat_mul, quotient, UInt8.toNat_toUInt64,
      UInt64.toNat_toUInt8, UInt64.reduceToNat]
    omega
  rw [packTag, if_pos low, number]

theorem ValueKind.code_injective {a b : ValueKind} (same : a.code = b.code) : a = b := by
  have both := ofCode_code a
  rw [same, ofCode_code] at both
  exact (Except.ok.inj both).symm

theorem ValueKind.ofCode_isOk {code : UInt8} :
    (∃ kind, ofCode code = .ok kind) ↔ code = 1 ∨ code = 2 ∨ code = 3 := by
  unfold ofCode
  by_cases put : code = 1
  · simp [put]
  · by_cases delete : code = 2
    · simp [delete]
    · by_cases merge : code = 3
      · simp [merge]
      · simp [put, delete, merge]

namespace InternalKey

theorem compare_eq_iff {a b : InternalKey} : compare a b = .eq ↔ a = b := by
  constructor
  · intro equal
    rw [compare, Ordering.then_eq_eq, Ordering.then_eq_eq] at equal
    obtain ⟨users, sequences, codes⟩ := equal
    obtain ⟨userA, sequenceA, kindA⟩ := a
    obtain ⟨userB, sequenceB, kindB⟩ := b
    have users : userA = userB := Std.compare_eq_iff_eq.mp users
    have sequences : sequenceB = sequenceA := Std.compare_eq_iff_eq.mp sequences
    have kinds : kindB = kindA := ValueKind.code_injective (Std.compare_eq_iff_eq.mp codes)
    rw [users, sequences, kinds]
  · rintro rfl
    simp [compare]

/-- What a tagged byte string is decoded to is settled by the byte where its tag begins. -/
theorem decode_of_hasTag {bytes : Bytes} (tagged : HasTag bytes) :
    decode bytes = (ValueKind.ofCode (tagPart bytes).toUInt8).map
      fun kind => ⟨userPart bytes, tagPart bytes / 256, kind⟩ := by
  simp only [decode, userKeyOf_eq tagged, tagOf_eq tagged, unpackTag]
  cases ValueKind.ofCode (tagPart bytes).toUInt8 <;> rfl

/-- Which bytes spell an internal key. -/
theorem spelled_iff {bytes : Bytes} :
    (∃ key, decode bytes = .ok key) ↔
      HasTag bytes ∧ ∃ code, bytes[bytes.length - tagSize]? = some code ∧
        (code = 1 ∨ code = 2 ∨ code = 3) := by
  constructor
  · rintro ⟨key, spelled⟩
    obtain ⟨tagged, _, _, code⟩ := decode_ok spelled
    refine ⟨tagged, _, getElem?_tag tagged, ?_⟩
    rw [code]
    exact ValueKind.ofCode_isOk.mp ⟨key.kind, ValueKind.ofCode_code key.kind⟩
  · rintro ⟨tagged, code, first, known⟩
    rw [getElem?_tag tagged, Option.some.injEq] at first
    obtain ⟨kind, named⟩ := ValueKind.ofCode_isOk.mpr known
    exact ⟨_, by rw [decode_of_hasTag tagged, first, named]; rfl⟩

/-- Bytes that spell a key are its encoded form. -/
theorem encode_decode {bytes : Bytes} {key : InternalKey} (spelled : decode bytes = .ok key) :
    key.sequence ≤ maxSequence ∧ encode key = .ok bytes := by
  obtain ⟨tagged, user, sequence, code⟩ := decode_ok spelled
  have packed := packTag_unpackTag code
  rw [sequence] at packed
  constructor
  · by_contra high
    simp [packTag, high] at packed
  · rw [encode, packed, ← user]
    exact congrArg Except.ok (userPart_append_tagPart tagged)

/-- Encoded forms are in the versioned order as the keys are. -/
theorem compareKeys_encode {a b : InternalKey} {x y : Bytes} (encodedA : encode a = .ok x)
    (encodedB : encode b = .ok y) :
    KeyOrder.versioned.compareKeys x y = .ok (compare a b) := by
  have spelledA := decode_encode encodedA
  have spelledB := decode_encode encodedB
  rw [KeyOrder.versioned_eq (decode_ok spelledA).1 (decode_ok spelledB).1,
    rank_eq spelledA spelledB]

/-- Encoding is an isomorphism of orders from the keys whose sequence numbers have a tag onto the
byte strings that spell a key, and the order on byte strings is total wherever there is a tag. -/
theorem encoding_orderIso :
    (∀ a b : InternalKey, a.sequence ≤ maxSequence → b.sequence ≤ maxSequence →
      ∃ x y, encode a = .ok x ∧ encode b = .ok y ∧ decode x = .ok a ∧
        KeyOrder.versioned.compareKeys x y = .ok (compare a b) ∧ (compare a b = .eq ↔ a = b)) ∧
    (∀ bytes, (∃ key, decode bytes = .ok key) ↔
      tagSize ≤ bytes.length ∧ ∃ code, bytes[bytes.length - tagSize]? = some code ∧
        (code = 1 ∨ code = 2 ∨ code = 3)) ∧
    (∀ bytes key, decode bytes = .ok key →
      key.sequence ≤ maxSequence ∧ encode key = .ok bytes) ∧
    KeyOrder.versioned.TotalOn HasTag ∧
    (∀ x y, HasTag x → HasTag y → (KeyOrder.versioned.compareKeys x y = .ok .eq ↔ x = y)) := by
  refine ⟨?_, fun _ => spelled_iff, fun _ _ => encode_decode, KeyOrder.versioned_totalOn,
    fun _ _ => KeyOrder.versioned_eq_iff⟩
  intro a b lowA lowB
  obtain ⟨x, encodedA⟩ := encode_ok lowA
  obtain ⟨y, encodedB⟩ := encode_ok lowB
  exact ⟨x, y, encodedA, encodedB, decode_encode encodedA, compareKeys_encode encodedA encodedB,
    compare_eq_iff⟩

/-- A key that begins with another one comes behind it, encoded or not, however new it is. -/
theorem encoding_orderIso_prefixed :
    ∃ x y, encode ⟨[97], 5, .put⟩ = .ok x ∧ encode ⟨[97, 0], maxSequence, .merge⟩ = .ok y ∧
      decode x = .ok ⟨[97], 5, .put⟩ ∧ KeyOrder.versioned.compareKeys x y = .ok .lt := by
  obtain ⟨x, y, encodedA, encodedB, decoded, order, _⟩ :=
    encoding_orderIso.1 ⟨[97], 5, .put⟩ ⟨[97, 0], maxSequence, .merge⟩ (by decide) (by decide)
  refine ⟨x, y, encodedA, encodedB, decoded, ?_⟩
  rw [order]
  decide +kernel

end InternalKey

end WriteBuffer
