import Mathlib
import WriteBuffer.Bytes.Lemmas
import WriteBuffer.Proofs.Storage
import WriteBuffer.Proofs.VersionedOrder

/-!
Entries that spell records. The key that is cut out of an entry is the internal key of the record
that it spells (`Record.decode_ok`) or was written for (`Record.encode_ok`), and the versioned order
ranks bytes as the keys they spell (`InternalKey.rank_eq`): a key is not below a lookup key exactly if
its user key is greater or it is a version that the lookup may see (`InternalKey.not_below_lookup`).
-/
namespace WriteBuffer

/-- An entry that spells a record. -/
def WellFormed (entry : Bytes) : Prop := ∃ record, Record.decode entry = .ok record

/-- The key cut out of an entry spells an internal key, whatever stands behind it. -/
def SpellsKey (entry : Bytes) (key : InternalKey) : Prop :=
  ∃ bytes, entryKey entry = .ok bytes ∧ InternalKey.decode bytes = .ok key

theorem lengthAt_eq_ok_iff {bytes : Bytes} {offset n : Nat} : lengthAt bytes offset = .ok n ↔
    offset + lengthSize ≤ bytes.length ∧ ofLittleEndian ((bytes.drop offset).take lengthSize) = n := by
  unfold lengthAt
  split <;> simp [*]

theorem cut_eq_ok_iff {bytes part : Bytes} {offset length : Nat} : cut bytes offset length = .ok part ↔
    offset + length ≤ bytes.length ∧ (bytes.drop offset).take length = part := by
  unfold cut
  split <;> simp [*]

theorem ofLittleEndian_take_lt (bytes : Bytes) :
    ofLittleEndian (bytes.take lengthSize) < 256 ^ lengthSize := by
  refine Nat.lt_of_lt_of_le (ofLittleEndian_lt _) (Nat.pow_le_pow_right (by decide) ?_)
  exact List.length_take_le ..

/-- The key cut out of an entry is the internal key of its record. -/
theorem Record.decode_ok {entry : Bytes} {record : Record} (spelled : decode entry = .ok record) :
    SpellsKey entry record.internalKey := by
  unfold decode at spelled
  by_cases short : entry.length < lengthSize
  · simp [short, throw, throwThe, MonadExceptOf.throw, bind, Except.bind] at spelled
  by_cases tagless : ofLittleEndian (entry.take lengthSize) < tagSize
  · simp [short, tagless, throw, throwThe, MonadExceptOf.throw, bind, Except.bind] at spelled
  by_cases truncated :
      entry.length < lengthSize + ofLittleEndian (entry.take lengthSize) + lengthSize
  · simp [short, tagless, truncated, throw, throwThe, MonadExceptOf.throw, bind, Except.bind]
      at spelled
  simp only [short, tagless, truncated, if_false] at spelled
  obtain ⟨key, decoded, spelled⟩ := bind_eq_ok.mp spelled
  refine ⟨(entry.drop lengthSize).take (ofLittleEndian (entry.take lengthSize)), ?_, ?_⟩
  · have room : 0 + lengthSize ≤ entry.length := by omega
    have keyRoom : lengthSize + ofLittleEndian (entry.take lengthSize) ≤ entry.length := by omega
    simp only [entryKey, lengthAt, room, if_true, List.drop_zero, bind, Except.bind, cut, keyRoom]
  · split at spelled
    · cases spelled
    · obtain rfl := Except.ok.inj spelled
      exact decoded

/-- What the parts of an internal key that can be decoded are. -/
theorem InternalKey.decode_ok {bytes : Bytes} {key : InternalKey} (spelled : decode bytes = .ok key) :
    HasTag bytes ∧ userPart bytes = key.userKey ∧ tagPart bytes / 256 = key.sequence ∧
      (tagPart bytes).toUInt8 = key.kind.code := by
  have tagged := hasTag_of_isInternalKey ⟨key, spelled⟩
  simp only [decode, userKeyOf_eq tagged, tagOf_eq tagged, unpackTag, bind_eq_ok] at spelled
  obtain ⟨kind, named, same⟩ := spelled
  obtain rfl := Except.ok.inj same
  refine ⟨tagged, rfl, rfl, ?_⟩
  simp only [ValueKind.ofCode] at named
  split at named
  · next code => rw [← Except.ok.inj named]; exact code
  · split at named
    · next code => rw [← Except.ok.inj named]; exact code
    · split at named
      · next code => rw [← Except.ok.inj named]; exact code
      · cases named

theorem compare_toNat_u64 (x y : UInt64) : compare x y = compare x.toNat y.toNat := by
  simp only [compare, compareOfLessAndEq, UInt64.lt_iff_toNat_lt, UInt64.toNat_inj]

theorem compare_toNat_u8 (x y : UInt8) : compare x y = compare x.toNat y.toNat := by
  simp only [compare, compareOfLessAndEq, UInt8.lt_iff_toNat_lt, UInt8.toNat_inj]

theorem compare_div_mod (x y : Nat) :
    compare x y = (compare (x / 256) (y / 256)).then (compare (x % 256) (y % 256)) := by
  rcases Nat.lt_trichotomy (x / 256) (y / 256) with less | same | greater
  · rw [Nat.compare_eq_lt.mpr less]
    exact Nat.compare_eq_lt.mpr (by omega)
  · rw [Nat.compare_eq_eq.mpr same, Ordering.eq_then]
    rcases Nat.lt_trichotomy (x % 256) (y % 256) with less | equal | greater
    · rw [Nat.compare_eq_lt.mpr less, Nat.compare_eq_lt.mpr (by omega)]
    · rw [Nat.compare_eq_eq.mpr equal, Nat.compare_eq_eq.mpr (by omega)]
    · rw [Nat.compare_eq_gt.mpr greater, Nat.compare_eq_gt.mpr (by omega)]
  · rw [Nat.compare_eq_gt.mpr greater]
    exact Nat.compare_eq_gt.mpr (by omega)

theorem compare_tag (x y : UInt64) :
    compare x y = (compare (x / 256) (y / 256)).then (compare x.toUInt8 y.toUInt8) := by
  rw [compare_toNat_u64, compare_toNat_u64, compare_toNat_u8, UInt64.toNat_toUInt8,
    UInt64.toNat_toUInt8, UInt64.toNat_div, UInt64.toNat_div]
  exact compare_div_mod ..

theorem unpackTag_packTag {sequence tag : UInt64} {kind : ValueKind}
    (packed : packTag sequence kind = .ok tag) : unpackTag tag = (sequence, kind.code) := by
  simp only [packTag] at packed
  split at packed
  · next low =>
    obtain rfl := Except.ok.inj packed
    have low : sequence.toNat ≤ 72057594037927935 := UInt64.le_iff_toNat_le.mp low
    have code : kind.code.toNat < 256 := kind.code.toNat_lt
    have number : (sequence * 256 + kind.code.toUInt64).toNat
        = sequence.toNat * 256 + kind.code.toNat := by
      simp only [UInt64.toNat_add, UInt64.toNat_mul, UInt8.toNat_toUInt64, UInt64.reduceToNat]
      omega
    refine Prod.ext (UInt64.toNat_inj.mp ?_) (UInt8.toNat_inj.mp ?_)
    · simp only [unpackTag, UInt64.toNat_div, number, UInt64.reduceToNat]
      omega
    · simp only [unpackTag, UInt64.toNat_toUInt8, number]
      omega
  · cases packed

theorem ValueKind.ofCode_code (kind : ValueKind) : ofCode kind.code = .ok kind := by
  cases kind <;> rfl

namespace InternalKey

/-- Only a sequence number that is too large cannot be encoded. -/
theorem encode_ok {key : InternalKey} (low : key.sequence ≤ maxSequence) :
    ∃ bytes, encode key = .ok bytes := by
  simp [encode, packTag, low, bind, Except.bind, pure, Except.pure]

theorem decode_encode {key : InternalKey} {bytes : Bytes} (encoded : encode key = .ok bytes) :
    decode bytes = .ok key := by
  simp only [encode, bind_eq_ok, pure, Except.pure, Except.ok.injEq] at encoded
  obtain ⟨tag, packed, rfl⟩ := encoded
  have room : tagSize ≤ (key.userKey ++ littleEndian tagSize tag.toNat).length := by simp
  have front : (key.userKey ++ littleEndian tagSize tag.toNat).length - tagSize
      = key.userKey.length := by simp
  have number : UInt64.ofNat (ofLittleEndian (littleEndian tagSize tag.toNat)) = tag := by
    have bound : tag.toNat < 256 ^ tagSize := tag.toNat_lt
    rw [ofLittleEndian_littleEndian, Nat.mod_eq_of_lt bound, UInt64.ofNat_toNat]
  simp only [decode, userKeyOf, tagOf, room, if_true, front, List.take_left, List.drop_left, number,
    unpackTag_packTag packed, ValueKind.ofCode_code]
  rfl

/-- The versioned order ranks bytes as the keys they spell. -/
theorem rank_eq {x y : Bytes} {a b : InternalKey} (spelledX : decode x = .ok a)
    (spelledY : decode y = .ok b) : KeyOrder.rank x y = compare a b := by
  obtain ⟨_, userX, sequenceX, codeX⟩ := decode_ok spelledX
  obtain ⟨_, userY, sequenceY, codeY⟩ := decode_ok spelledY
  rw [InternalKey.compare, ← userX, ← userY, ← sequenceX, ← sequenceY, ← codeX, ← codeY,
    ← compare_tag]
  rfl

/-- A key is not below a lookup exactly if its user key is greater, or the same and its version
visible to the lookup. -/
theorem not_below_lookup (key : InternalKey) (userKey : Bytes) (sequence : UInt64) :
    compare key ⟨userKey, sequence, .merge⟩ ≠ .lt ↔
      Ord.compare key.userKey userKey = .gt ∨
        (key.userKey = userKey ∧ key.sequence ≤ sequence) := by
  have kinds : Ord.compare ValueKind.merge.code key.kind.code ≠ .lt := by
    cases key.kind <;> decide
  simp only [InternalKey.compare]
  cases users : Ord.compare key.userKey userKey with
  | lt =>
    have different : key.userKey ≠ userKey := by
      intro same
      rw [Std.compare_eq_iff_eq.mpr same] at users
      cases users
    simp [different]
  | gt => simp
  | eq =>
    have same : key.userKey = userKey := Std.compare_eq_iff_eq.mp users
    simp only [Ordering.eq_then, same, true_and, reduceCtorEq, false_or, compare_toNat_u64,
      UInt64.le_iff_toNat_le]
    rcases Nat.lt_trichotomy sequence.toNat key.sequence.toNat with less | equal | greater
    · rw [Nat.compare_eq_lt.mpr less]
      simpa using less
    · rw [Nat.compare_eq_eq.mpr equal, Ordering.eq_then]
      simpa [equal] using kinds
    · rw [Nat.compare_eq_gt.mpr greater]
      simpa using Nat.le_of_lt greater

/-- Of two versions of one user key, the newer one comes first. -/
theorem newer_of_below {a b : InternalKey} (same : a.userKey = b.userKey)
    (below : compare a b = .lt) :
    b.sequence < a.sequence ∨ (b.sequence = a.sequence ∧ b.kind.code < a.kind.code) := by
  rw [InternalKey.compare, Std.compare_eq_iff_eq.mpr same, Ordering.eq_then,
    Ordering.then_eq_lt] at below
  rcases below with less | ⟨equal, less⟩
  · exact .inl (Std.compare_eq_lt.mp less)
  · exact .inr ⟨Std.compare_eq_iff_eq.mp equal, Std.compare_eq_lt.mp less⟩

theorem below_of_newer {a b : InternalKey} (same : a.userKey = b.userKey)
    (newer : b.sequence < a.sequence) : compare a b = .lt := by
  rw [InternalKey.compare, Std.compare_eq_iff_eq.mpr same, Ordering.eq_then,
    Ordering.then_eq_lt]
  exact .inl (Std.compare_eq_lt.mpr newer)

end InternalKey

/-- A lookup spells the internal key that would stand first of all that it may see. -/
theorem LookupKey.of_ok {userKey : Bytes} {sequence : UInt64} (low : sequence ≤ maxSequence) :
    ∃ key, LookupKey.of userKey sequence = .ok key ∧ key.userKey = .ok userKey ∧
      InternalKey.decode key.internalKey = .ok ⟨userKey, sequence, .merge⟩ := by
  obtain ⟨bytes, encoded⟩ := InternalKey.encode_ok
    (show (⟨userKey, sequence, .merge⟩ : InternalKey).sequence ≤ maxSequence from low)
  have spelled := InternalKey.decode_encode encoded
  obtain ⟨tagged, users, _⟩ := InternalKey.decode_ok spelled
  refine ⟨⟨bytes⟩, ?_, ?_, spelled⟩
  · simp [LookupKey.of, encoded, bind, Except.bind, pure, Except.pure]
  · rw [LookupKey.userKey, userKeyOf_eq tagged, users]

namespace SpellsKey

variable {a b : Bytes} {x y : InternalKey}

theorem unique (spelled : SpellsKey a x) (again : SpellsKey a y) : x = y := by
  obtain ⟨bytes, cut, decoded⟩ := spelled
  obtain ⟨same, cutAgain, decodedAgain⟩ := again
  obtain rfl := Except.ok.inj (cut.symm.trans cutAgain)
  exact Except.ok.inj (decoded.symm.trans decodedAgain)

theorem hasTag (spelled : SpellsKey a x) : HasKey HasTag a := by
  obtain ⟨key, cut, decoded⟩ := spelled
  exact ⟨key, cut, (InternalKey.decode_ok decoded).1⟩

theorem entryUserKey_eq (spelled : SpellsKey a x) : entryUserKey a = .ok x.userKey := by
  obtain ⟨key, cut, decoded⟩ := spelled
  obtain ⟨tagged, user, _⟩ := InternalKey.decode_ok decoded
  simp only [entryUserKey, cut, bind, Except.bind, userKeyOf_eq tagged, user]

theorem compareEntryKey_eq {target : Bytes} {key : InternalKey} (spelled : SpellsKey a x)
    (spelledKey : InternalKey.decode target = .ok key) :
    KeyOrder.versioned.compareEntryKey a target = .ok (InternalKey.compare x key) := by
  obtain ⟨cutKey, cut, decoded⟩ := spelled
  have taggedA := (InternalKey.decode_ok decoded).1
  have taggedKey := (InternalKey.decode_ok spelledKey).1
  rw [KeyOrder.compareEntryKey_eq _ cut, KeyOrder.versioned_eq taggedA taggedKey,
    InternalKey.rank_eq decoded spelledKey]

/-- No version of a user key is below a lookup of it as of any time. -/
theorem not_below_lookup {target : Bytes} (spelled : SpellsKey a x)
    (lookup : InternalKey.decode target = .ok ⟨x.userKey, maxSequence, .merge⟩) :
    KeyOrder.versioned.compareEntryKey a target ≠ .ok .lt := by
  have low : x.sequence ≤ maxSequence := by
    obtain ⟨key, _, decoded⟩ := spelled
    obtain ⟨_, _, sequence, _⟩ := InternalKey.decode_ok decoded
    rw [← sequence, UInt64.le_iff_toNat_le, UInt64.toNat_div]
    have bound := (tagPart key).toNat_lt
    simp only [maxSequence, UInt64.reduceToNat]
    omega
  rw [spelled.compareEntryKey_eq lookup, ne_eq, Except.ok.injEq]
  exact (InternalKey.not_below_lookup ..).mpr (.inr ⟨rfl, low⟩)

theorem compareEntries_eq (spelledA : SpellsKey a x) (spelledB : SpellsKey b y) :
    KeyOrder.versioned.compareEntries a b = .ok (InternalKey.compare x y) := by
  obtain ⟨key, cut, decoded⟩ := spelledB
  rw [KeyOrder.compareEntries_eq _ cut, spelledA.compareEntryKey_eq decoded]

theorem below_iff (spelledA : SpellsKey a x) (spelledB : SpellsKey b y) :
    KeyOrder.versioned.Below a b ↔ InternalKey.compare x y = .lt := by
  rw [KeyOrder.Below, spelledA.compareEntries_eq spelledB]
  simp

end SpellsKey

namespace Record

variable {a b : Bytes} {x y : Record}

theorem entryUserKey_eq (spelled : decode a = .ok x) : entryUserKey a = .ok x.userKey :=
  (decode_ok spelled).entryUserKey_eq

theorem compareEntryKey_eq {target : Bytes} {key : InternalKey} (spelled : decode a = .ok x)
    (spelledKey : InternalKey.decode target = .ok key) :
    KeyOrder.versioned.compareEntryKey a target = .ok (InternalKey.compare x.internalKey key) :=
  (decode_ok spelled).compareEntryKey_eq spelledKey

theorem below_iff (spelledA : decode a = .ok x) (spelledB : decode b = .ok y) :
    KeyOrder.versioned.Below a b ↔ InternalKey.compare x.internalKey y.internalKey = .lt :=
  (decode_ok spelledA).below_iff (decode_ok spelledB)

/-- The bytes that state the length of the internal key of a record have room for it. -/
def KeyFits (record : Record) : Prop := record.userKey.length + tagSize < 256 ^ lengthSize

/-- The key cut out of the entry for a record is its internal key. -/
theorem encode_ok {record : Record} {entry : Bytes} (encoded : record.encode = .ok entry)
    (fits : record.KeyFits) : SpellsKey entry record.internalKey := by
  simp only [encode, write, List.length_replicate, ne_eq, not_true_eq_false, if_false] at encoded
  cases packed : packTag record.sequence record.kind with
  | error failure => simp [packed, Except.map] at encoded
  | ok tag =>
    simp only [packed, Except.map, Except.ok.injEq] at encoded
    let key := record.userKey ++ littleEndian tagSize tag.toNat
    have spelled : InternalKey.decode key = .ok record.internalKey := by
      refine InternalKey.decode_encode ?_
      simp [InternalKey.encode, Record.internalKey, packed, key, bind, Except.bind, pure,
        Except.pure]
    refine ⟨key, ?_, spelled⟩
    have size : key.length = record.userKey.length + tagSize := by simp [key]
    have stated : ofLittleEndian (littleEndian lengthSize key.length) = key.length := by
      rw [ofLittleEndian_littleEndian, Nat.mod_eq_of_lt (size ▸ fits)]
    obtain ⟨rest, parts⟩ : ∃ rest, entry = littleEndian lengthSize key.length ++ (key ++ rest) :=
      ⟨littleEndian lengthSize record.value.length ++ record.value, by
        rw [← encoded, size]
        simp [head, key]⟩
    have front : entry.take lengthSize = littleEndian lengthSize key.length :=
      parts ▸ List.take_left' (length_littleEndian ..)
    have back : entry.drop lengthSize = key ++ rest :=
      parts ▸ List.drop_left' (length_littleEndian ..)
    have room : lengthSize + key.length ≤ entry.length := by simp [parts]
    have prefixed : lengthSize ≤ entry.length := Nat.le_trans (Nat.le_add_right ..) room
    simp [entryKey, lengthAt, cut, front, back, stated, room, prefixed, bind, Except.bind]

/-- The entry for a record has the user key of the record exactly if its length can be stated. -/
theorem entryUserKey_iff_keyFits {record : Record} {entry : Bytes}
    (encoded : record.encode = .ok entry) :
    entryUserKey entry = .ok record.userKey ↔ record.KeyFits := by
  refine ⟨fun read => ?_, fun fits => (encode_ok encoded fits).entryUserKey_eq⟩
  obtain ⟨key, found, tagged, user⟩ := entryKey_of_entryUserKey read
  obtain ⟨length, stated, part⟩ := bind_eq_ok.mp found
  obtain ⟨inside, keyPart⟩ := cut_eq_ok_iff.mp part
  have userSize : record.userKey.length + tagSize = key.length := by
    have atLeast : tagSize ≤ key.length := tagged
    rw [← user, userPart, List.length_take]
    omega
  have keySize : key.length = length := by
    rw [← keyPart, List.length_take, List.length_drop]
    omega
  have small : length < 256 ^ lengthSize :=
    (lengthAt_eq_ok_iff.mp stated).2 ▸ ofLittleEndian_take_lt _
  rw [KeyFits, userSize, keySize]
  exact small

end Record

namespace WellFormed

variable {entry : Bytes}

theorem isInternalKey (wellFormed : WellFormed entry) : HasKey IsInternalKey entry := by
  obtain ⟨record, spelled⟩ := wellFormed
  obtain ⟨key, cut, decoded⟩ := Record.decode_ok spelled
  exact ⟨key, cut, record.internalKey, decoded⟩

theorem hasTag (wellFormed : WellFormed entry) : HasKey HasTag entry := by
  obtain ⟨record, spelled⟩ := wellFormed
  exact (Record.decode_ok spelled).hasTag

end WellFormed

end WriteBuffer
