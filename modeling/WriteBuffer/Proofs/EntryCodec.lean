import Mathlib
import WriteBuffer.Proofs.KeyEncoding

/-!
The format of entries in both directions. An entry spells a record exactly if it was written for the
record and both of its lengths fit into the bytes that state them (`Record.decode_eq_ok_iff`). No
entry that spells a record begins with another one (`Record.eq_of_isPrefix`), and a reader that may
break off at every cut and at every sum never does (`Record.decodeChecked_eq`). What writing and
reading have to do with each other is gathered in `Record.entry_codec`.
-/
namespace WriteBuffer

theorem checkedSum_eq {a b : Nat} (small : a + b < UInt64.size) : checkedSum a b = .ok (a + b) :=
  if_pos small

theorem ofLittleEndian_length {n : Nat} (fits : n < 256 ^ lengthSize) :
    ofLittleEndian (littleEndian lengthSize n) = n := by
  rw [ofLittleEndian_littleEndian, Nat.mod_eq_of_lt fits]

namespace Record

def statedKeySize (entry : Bytes) : Nat := ofLittleEndian (entry.take lengthSize)

def valueAt (entry : Bytes) : Nat := lengthSize + statedKeySize entry + lengthSize

def statedValueSize (entry : Bytes) : Nat :=
  ofLittleEndian ((entry.drop (lengthSize + statedKeySize entry)).take lengthSize)

/-- Reads an entry as `decode` does, with every cut and every sum checked. -/
def decodeChecked (entry : Bytes) : Except Failure (Except Corruption Record) := do
  if entry.length < lengthSize then return .error .entryTooShort
  let keySize ← lengthAt entry 0
  if keySize < tagSize then return .error .keyShorterThanTag
  let keyEnd ← checkedSum lengthSize keySize
  let valueAt ← checkedSum keyEnd lengthSize
  if entry.length < valueAt then return .error .truncatedInKey
  let key ← cut entry lengthSize keySize
  let (sequence, code) := unpackTag (← tagOf key)
  match ValueKind.ofCode code with
  | .error corruption => return .error corruption
  | .ok kind =>
    let valueSize ← lengthAt entry keyEnd
    if entry.length ≠ (← checkedSum valueAt valueSize) then
      return .error (.valueLength valueSize entry.length)
    return .ok ⟨← userKeyOf key, sequence, kind, ← cut entry valueAt (entry.length - valueAt)⟩

variable {entry : Bytes} {record : Record}

theorem decode_eq (entry : Bytes) : decode entry =
    if entry.length < lengthSize then .error .entryTooShort
    else if statedKeySize entry < tagSize then .error .keyShorterThanTag
    else if entry.length < valueAt entry then .error .truncatedInKey
    else (InternalKey.decode ((entry.drop lengthSize).take (statedKeySize entry))).bind fun key =>
      if entry.length ≠ valueAt entry + statedValueSize entry then
        .error (.valueLength (statedValueSize entry) entry.length)
      else .ok ⟨key.userKey, key.sequence, key.kind, entry.drop (valueAt entry)⟩ :=
  rfl

/-- No sum of the stated lengths overflows, since four bytes state each of them. -/
theorem sums_checked (entry : Bytes) :
    checkedSum lengthSize (statedKeySize entry) = .ok (lengthSize + statedKeySize entry) ∧
      checkedSum (lengthSize + statedKeySize entry) lengthSize = .ok (valueAt entry) ∧
      checkedSum (valueAt entry) (statedValueSize entry)
        = .ok (valueAt entry + statedValueSize entry) := by
  have keyBound : statedKeySize entry < 256 ^ lengthSize := ofLittleEndian_take_lt _
  have valueBound : statedValueSize entry < 256 ^ lengthSize := ofLittleEndian_take_lt _
  have bounded : lengthSize + statedKeySize entry + lengthSize + statedValueSize entry
      < UInt64.size := by
    simp only [lengthSize, UInt64.size] at keyBound valueBound ⊢
    omega
  exact ⟨checkedSum_eq (by omega), checkedSum_eq (by omega), checkedSum_eq bounded⟩

/-- Where the value begins inside the entry, every cut is inside the entry. -/
theorem cuts_checked (room : valueAt entry ≤ entry.length) :
    cut entry lengthSize (statedKeySize entry)
        = .ok ((entry.drop lengthSize).take (statedKeySize entry)) ∧
      lengthAt entry (lengthSize + statedKeySize entry) = .ok (statedValueSize entry) ∧
      cut entry (valueAt entry) (entry.length - valueAt entry) = .ok (entry.drop (valueAt entry)) := by
  have keyRoom : lengthSize + statedKeySize entry ≤ entry.length := Nat.le_of_add_right_le room
  have toTheEnd : valueAt entry + (entry.length - valueAt entry) ≤ entry.length :=
    Nat.le_of_eq (Nat.add_sub_cancel' room)
  exact ⟨cut_eq_ok_iff.mpr ⟨keyRoom, rfl⟩, lengthAt_eq_ok_iff.mpr ⟨room, rfl⟩,
    cut_eq_ok_iff.mpr ⟨toTheEnd, List.take_of_length_le (by simp)⟩⟩

/-- Reading an entry never breaks off: every cut is inside the entry, and no sum overflows. -/
theorem decodeChecked_eq (entry : Bytes) : decodeChecked entry = .ok (decode entry) := by
  obtain ⟨keySum, valueSum, endSum⟩ := sums_checked entry
  rw [decode_eq]
  unfold decodeChecked
  by_cases short : entry.length < lengthSize
  · simp only [short, if_true]
    rfl
  have keyStated : lengthAt entry 0 = .ok (statedKeySize entry) :=
    lengthAt_eq_ok_iff.mpr ⟨by omega, rfl⟩
  simp only [short, if_false, keyStated, bind, Except.bind]
  by_cases tagless : statedKeySize entry < tagSize
  · simp only [tagless, if_true]
    rfl
  simp only [tagless, if_false, keySum, valueSum]
  by_cases truncated : entry.length < valueAt entry
  · rw [if_pos truncated, if_pos truncated]
    rfl
  obtain ⟨keyCut, valueStated, valueCut⟩ := cuts_checked (Nat.not_lt.mp truncated)
  have tagged : HasTag ((entry.drop lengthSize).take (statedKeySize entry)) := by
    rw [HasTag, List.length_take, List.length_drop]
    simp only [valueAt] at truncated
    omega
  rw [if_neg truncated, if_neg truncated, keyCut, InternalKey.decode_of_hasTag tagged]
  simp only [tagOf_eq tagged, unpackTag, valueStated, userKeyOf_eq tagged, endSum, valueCut]
  cases ValueKind.ofCode (tagPart ((entry.drop lengthSize).take (statedKeySize entry))).toUInt8 with
  | error corruption => rfl
  | ok kind =>
    simp only [Except.map]
    by_cases ended : entry.length = valueAt entry + statedValueSize entry
    · rw [if_neg (not_not.mpr ended), if_neg (not_not.mpr ended)]
      rfl
    · rw [if_pos ended, if_pos ended]
      rfl

/-- The bytes that state the two lengths of a record have room for them. -/
structure Fits (record : Record) : Prop where
  key : record.KeyFits
  value : record.value.length < 256 ^ lengthSize

/-- What an entry with an internal key and a value consists of. -/
def layout (key value : Bytes) : Bytes :=
  littleEndian lengthSize key.length ++ (key ++ (littleEndian lengthSize value.length ++ value))

theorem length_layout (key value : Bytes) :
    (layout key value).length = lengthSize + key.length + lengthSize + value.length := by
  simp only [layout, List.length_append, length_littleEndian]
  omega

/-- What the lengths stated in a layout are, and what stands at them. -/
theorem layout_parts {key value : Bytes} (keyFits : key.length < 256 ^ lengthSize)
    (valueFits : value.length < 256 ^ lengthSize) :
    statedKeySize (layout key value) = key.length ∧
      ((layout key value).drop lengthSize).take key.length = key ∧
      statedValueSize (layout key value) = value.length ∧
      (layout key value).drop (valueAt (layout key value)) = value := by
  have afterKeySize : (layout key value).drop lengthSize
      = key ++ (littleEndian lengthSize value.length ++ value) :=
    List.drop_left' (length_littleEndian ..)
  have keySize : statedKeySize (layout key value) = key.length := by
    rw [statedKeySize, layout, List.take_left' (length_littleEndian ..),
      ofLittleEndian_length keyFits]
  have afterKey : (layout key value).drop (lengthSize + key.length)
      = littleEndian lengthSize value.length ++ value := by
    rw [← List.drop_drop, afterKeySize, List.drop_left]
  refine ⟨keySize, ?_, ?_, ?_⟩
  · rw [afterKeySize, List.take_left]
  · rw [statedValueSize, keySize, afterKey, List.take_left' (length_littleEndian ..),
      ofLittleEndian_length valueFits]
  · rw [valueAt, keySize, ← List.drop_drop, afterKey, List.drop_left' (length_littleEndian ..)]

/-- An entry that ends where its lengths say is laid out from the parts at them. -/
theorem eq_layout (room : valueAt entry ≤ entry.length)
    (ended : entry.length = valueAt entry + statedValueSize entry) :
    entry = layout ((entry.drop lengthSize).take (statedKeySize entry))
      (entry.drop (valueAt entry)) := by
  simp only [valueAt] at room ended
  have keySize : ((entry.drop lengthSize).take (statedKeySize entry)).length
      = statedKeySize entry := by
    rw [List.length_take, List.length_drop]
    omega
  have valueSize : (entry.drop (valueAt entry)).length = statedValueSize entry := by
    rw [List.length_drop, valueAt]
    omega
  have statedKey : littleEndian lengthSize (statedKeySize entry) = entry.take lengthSize := by
    rw [← littleEndian_ofLittleEndian (entry.take lengthSize), List.length_take_of_le (by omega)]
    rfl
  have statedValue : littleEndian lengthSize (statedValueSize entry)
      = (entry.drop (lengthSize + statedKeySize entry)).take lengthSize := by
    rw [← littleEndian_ofLittleEndian ((entry.drop _).take lengthSize),
      List.length_take_of_le (by rw [List.length_drop]; omega)]
    rfl
  have afterKey : entry.drop (lengthSize + statedKeySize entry)
      = (entry.drop lengthSize).drop (statedKeySize entry) := List.drop_drop.symm
  have afterLengths : entry.drop (lengthSize + statedKeySize entry + lengthSize)
      = (entry.drop (lengthSize + statedKeySize entry)).drop lengthSize := List.drop_drop.symm
  rw [layout, keySize, valueSize, statedKey, statedValue, valueAt, afterLengths,
    List.take_append_drop, afterKey, List.take_append_drop, List.take_append_drop]

/-- An entry spells a record exactly if it is laid out from the internal key and the value of the
record, and both lengths can be stated. -/
theorem decode_eq_ok_iff_layout : decode entry = .ok record ↔
    ∃ key, key.length < 256 ^ lengthSize ∧ record.value.length < 256 ^ lengthSize ∧
      InternalKey.decode key = .ok record.internalKey ∧ entry = layout key record.value := by
  rw [decode_eq]
  constructor
  · intro spelled
    by_cases short : entry.length < lengthSize
    · simp [short] at spelled
    by_cases tagless : statedKeySize entry < tagSize
    · simp [short, tagless] at spelled
    by_cases truncated : entry.length < valueAt entry
    · simp [short, tagless, truncated] at spelled
    rw [if_neg short, if_neg tagless, if_neg truncated] at spelled
    obtain ⟨key, decoded, spelled⟩ := bind_eq_ok.mp spelled
    by_cases ended : entry.length = valueAt entry + statedValueSize entry
    · rw [if_neg (not_not.mpr ended), Except.ok.injEq] at spelled
      subst spelled
      refine ⟨_, ?_, ?_, decoded, eq_layout (Nat.not_lt.mp truncated) ended⟩
      · exact Nat.lt_of_le_of_lt (List.length_take_le ..) (ofLittleEndian_take_lt entry)
      · rw [List.length_drop, ended, Nat.add_sub_cancel_left]
        exact ofLittleEndian_take_lt _
    · simp [ended] at spelled
  · rintro ⟨key, keyFits, valueFits, decoded, rfl⟩
    obtain ⟨keySize, keyPart, valueSize, valuePart⟩ := layout_parts keyFits valueFits
    have tagged : tagSize ≤ key.length := (InternalKey.decode_ok decoded).1
    have begins : valueAt (layout key record.value) = lengthSize + key.length + lengthSize := by
      rw [valueAt, keySize]
    rw [valuePart, keySize, keyPart, valueSize, decoded, begins, length_layout, if_neg (by omega),
      if_neg (by omega), if_neg (by omega)]
    simp [Except.bind, internalKey]

theorem write_ok_iff {buffer : Bytes} : record.write buffer = (entry, .ok ()) ↔
    buffer.length = record.size ∧ ∃ key, record.internalKey.encode = .ok key ∧
      entry = layout key record.value := by
  by_cases right : buffer.length = record.size
  · simp only [write, right, ne_eq, not_true_eq_false, if_false, true_and, InternalKey.encode,
      internalKey]
    cases packTag record.sequence record.kind with
    | error failure => simp [bind, Except.bind]
    | ok tag => simp [bind, Except.bind, pure, Except.pure, layout, head, eq_comm]
  · simp [write, right]

theorem write_isOk_iff {buffer : Bytes} : (record.write buffer).2 = .ok () ↔
    buffer.length = record.size ∧ record.sequence ≤ maxSequence := by
  constructor
  · intro done
    obtain ⟨right, key, encoded, _⟩ := write_ok_iff.mp (Prod.ext rfl done)
    have spelled := InternalKey.decode_encode encoded
    exact ⟨right, (InternalKey.encode_decode spelled).1⟩
  · rintro ⟨right, low⟩
    obtain ⟨key, encoded⟩ := InternalKey.encode_ok (show record.internalKey.sequence ≤ _ from low)
    rw [write_ok_iff.mpr ⟨right, key, encoded, rfl⟩]

theorem length_encode {key : InternalKey} {bytes : Bytes} (encoded : key.encode = .ok bytes) :
    bytes.length = key.userKey.length + tagSize := by
  simp only [InternalKey.encode, bind_eq_ok, pure, Except.pure, Except.ok.injEq] at encoded
  obtain ⟨tag, _, rfl⟩ := encoded
  simp

/-- An entry spells a record exactly if the record can be written as that entry with lengths that
fit. -/
theorem decode_eq_ok_iff {buffer : Bytes} (right : buffer.length = record.size) :
    decode entry = .ok record ↔ record.Fits ∧ record.write buffer = (entry, .ok ()) := by
  rw [decode_eq_ok_iff_layout, write_ok_iff]
  constructor
  · rintro ⟨key, keyFits, valueFits, decoded, laidOut⟩
    have encoded := (InternalKey.encode_decode decoded).2
    rw [length_encode encoded] at keyFits
    exact ⟨⟨keyFits, valueFits⟩, right, key, encoded, laidOut⟩
  · rintro ⟨⟨keyFits, valueFits⟩, _, key, encoded, laidOut⟩
    refine ⟨key, ?_, valueFits, InternalKey.decode_encode encoded, laidOut⟩
    rw [length_encode encoded]
    exact keyFits

theorem length_inj {m n : Nat} (fitsM : m < 256 ^ lengthSize) (fitsN : n < 256 ^ lengthSize)
    (same : littleEndian lengthSize m = littleEndian lengthSize n) : m = n := by
  rw [← ofLittleEndian_length fitsM, same, ofLittleEndian_length fitsN]

/-- An entry that spells a record begins with no other one. -/
theorem eq_of_isPrefix {whole : Bytes} {other : Record} (spelled : decode entry = .ok record)
    (spelledWhole : decode whole = .ok other) (begins : entry <+: whole) : entry = whole := by
  obtain ⟨key, keyFits, valueFits, _, rfl⟩ := decode_eq_ok_iff_layout.mp spelled
  obtain ⟨otherKey, otherKeyFits, otherValueFits, _, rfl⟩ :=
    decode_eq_ok_iff_layout.mp spelledWhole
  obtain ⟨rest, same⟩ := begins
  simp only [layout, List.append_assoc] at same
  -- Part by part: as the first lengths agree, so do the keys, and then the second lengths.
  obtain ⟨keySizes, same⟩ := List.append_inj same (by simp)
  obtain ⟨keys, same⟩ := List.append_inj same (length_inj keyFits otherKeyFits keySizes)
  obtain ⟨valueSizes, same⟩ := List.append_inj same (by simp)
  have sizes : record.value.length = other.value.length :=
    length_inj valueFits otherValueFits valueSizes
  have ended : rest = [] := by
    have both := congrArg List.length same
    rw [List.length_append, sizes] at both
    exact List.length_eq_zero_iff.mp (by omega)
  rw [ended, List.append_nil] at same
  rw [keys, same]

theorem encode_iff_write :
    record.encode = .ok entry ↔ record.write (List.replicate record.size 0) = (entry, .ok ()) := by
  rw [encode]
  rcases record.write (List.replicate record.size 0) with ⟨bytes, _ | _⟩ <;> simp [Except.map]

/-- The entries that spell a record are those that were written for a record that fits. -/
theorem wellFormed_iff :
    WellFormed entry ↔ ∃ record : Record, record.Fits ∧ record.encode = .ok entry := by
  refine exists_congr fun record => ?_
  rw [encode_iff_write, decode_eq_ok_iff (List.length_replicate ..)]

theorem decode_error_of_not (unspelled : ¬ WellFormed entry) :
    ∃ corruption, decode entry = .error corruption := by
  cases decoded : decode entry with
  | error corruption => exact ⟨corruption, rfl⟩
  | ok record => exact absurd ⟨record, decoded⟩ unspelled

/-- Entries and records that fit belong to each other one to one. Writing succeeds exactly into a
buffer of the right length with a sequence number that has a tag, and what it wrote is read back
exactly if both lengths fit. Reading never breaks off, and the bytes that it accepts are those that
writing the accepted record puts into every buffer of the right length; bytes that continue an
accepted entry or break off in it are refused. -/
theorem entry_codec :
    (∀ (record : Record) buffer, (record.write buffer).2 = .ok () ↔
      buffer.length = record.size ∧ record.sequence ≤ maxSequence) ∧
    (∀ (record : Record) buffer entry, record.write buffer = (entry, .ok ()) →
      (decode entry = .ok record ↔ record.userKey.length + tagSize < 2 ^ 32 ∧
        record.value.length < 2 ^ 32)) ∧
    (∀ entry, decodeChecked entry = .ok (decode entry)) ∧
    (∀ entry record, decode entry = .ok record → record.sequence ≤ maxSequence ∧
      ∀ buffer : Bytes, buffer.length = record.size → record.write buffer = (entry, .ok ())) ∧
    (∀ entry, WellFormed entry ↔ ∃ record : Record, record.Fits ∧ record.encode = .ok entry) ∧
    (∀ a b record, decode a = .ok record → decode b = .ok record → a = b) ∧
    (∀ front whole, front <+: whole → front ≠ whole →
      (WellFormed whole → ∃ corruption, decode front = .error corruption) ∧
      (WellFormed front → ∃ corruption, decode whole = .error corruption)) := by
  refine ⟨fun _ _ => write_isOk_iff, ?_, decodeChecked_eq, ?_, fun _ => wellFormed_iff, ?_, ?_⟩
  · intro record buffer entry written
    rw [decode_eq_ok_iff (write_ok_iff.mp written).1]
    exact ⟨fun ⟨fits, _⟩ => ⟨fits.key, fits.value⟩, fun ⟨key, value⟩ => ⟨⟨key, value⟩, written⟩⟩
  · intro entry record spelled
    have written := fun (buffer : Bytes) (right : buffer.length = record.size) =>
      ((decode_eq_ok_iff right).mp spelled).2
    refine ⟨?_, written⟩
    have done := congrArg Prod.snd (written (List.replicate record.size 0) (by simp))
    exact (write_isOk_iff.mp done).2
  · intro a b record spelledA spelledB
    have right : (List.replicate record.size (0 : UInt8)).length = record.size := by simp
    have writtenA := ((decode_eq_ok_iff right).mp spelledA).2
    have writtenB := ((decode_eq_ok_iff right).mp spelledB).2
    rw [writtenA] at writtenB
    exact congrArg Prod.fst writtenB
  · intro front whole begins different
    refine ⟨fun ⟨other, spelledWhole⟩ => ?_, fun ⟨record, spelled⟩ => ?_⟩
    · refine decode_error_of_not fun ⟨record, spelled⟩ => ?_
      exact different (eq_of_isPrefix spelled spelledWhole begins)
    · refine decode_error_of_not fun ⟨other, spelledWhole⟩ => ?_
      exact different (eq_of_isPrefix spelled spelledWhole begins)

/-- A written entry is read back, and refused with a byte behind it. -/
theorem entry_codec_put :
    ∃ entry, Record.write ⟨[97], 7, .put, [1, 2]⟩ (List.replicate 19 0) = (entry, .ok ()) ∧
      decodeChecked entry = .ok (.ok ⟨[97], 7, .put, [1, 2]⟩) ∧
      ∃ corruption, decode (entry ++ [0]) = .error corruption := by
  obtain ⟨writes, reads, safe, _, _, _, refuses⟩ := entry_codec
  have done := (writes ⟨[97], 7, .put, [1, 2]⟩ (List.replicate 19 0)).mpr (by decide)
  obtain ⟨entry, written⟩ : ∃ entry,
      Record.write ⟨[97], 7, .put, [1, 2]⟩ (List.replicate 19 0) = (entry, .ok ()) :=
    ⟨_, Prod.ext rfl done⟩
  have spelled := (reads _ _ _ written).mpr (by decide)
  refine ⟨entry, written, by rw [safe, spelled], ?_⟩
  exact (refuses _ _ (List.prefix_append _ [0]) (by simp)).2 ⟨_, spelled⟩

end Record

end WriteBuffer
