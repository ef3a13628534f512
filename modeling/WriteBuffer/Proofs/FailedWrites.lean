import Mathlib
import WriteBuffer.Proofs.EntryCodec
import WriteBuffer.Proofs.TableSessions

/-!
What a failed write leaves in its buffer. A buffer of the wrong length is left alone, but a sequence
number that is too large is found when the head of the record is in the buffer already
(`Record.write_eq_error_iff`). So bytes that do not begin with that head are spoiled
(`Record.Spoils`), and where they spelled a version, they may then spell another one that nobody wrote
(`Record.decode_overwrite`). Tables publish what is in a buffer when it is inserted
(`TableSession.inserted_stays`), and so also what a failed write left there
(`TableSession.failed_encode_overwrites`).
-/
namespace WriteBuffer

namespace Record

variable {record : Record} {buffer left : Bytes} {failure : Failure}

/-- A buffer with the head of a record written over its front. -/
def overwrite (record : Record) (buffer : Bytes) : Bytes :=
  record.head ++ buffer.drop record.head.length

/-- The write of a record breaks off behind the head, and the buffer did not begin with that head. -/
structure Spoils (record : Record) (buffer : Bytes) : Prop where
  fits : buffer.length = record.size
  untagged : maxSequence < record.sequence
  other : ¬ record.head <+: buffer

theorem length_head (record : Record) :
    record.head.length = lengthSize + record.userKey.length := by
  simp [head]

theorem length_overwrite (fits : buffer.length = record.size) :
    (record.overwrite buffer).length = buffer.length := by
  have room : record.head.length ≤ buffer.length := by
    rw [length_head, fits, size, entrySize]
    omega
  rw [overwrite, List.length_append, List.length_drop, Nat.add_sub_cancel' room]

theorem overwrite_eq_iff : record.overwrite buffer = buffer ↔ record.head <+: buffer :=
  List.prefix_iff_eq_append.symm

/-- A write fails for a buffer of the wrong length, which it leaves alone, and for a sequence number
that has no tag, which it finds when the head is written. -/
theorem write_eq_error_iff : record.write buffer = (left, .error failure) ↔
    (buffer.length ≠ record.size ∧ failure = .wrongBufferLength ∧ left = buffer) ∨
      (buffer.length = record.size ∧ maxSequence < record.sequence ∧
        failure = .sequenceTooLarge record.sequence ∧ left = record.overwrite buffer) := by
  by_cases fits : buffer.length = record.size
  · by_cases low : record.sequence ≤ maxSequence
    · simp [write, packTag, fits, low, UInt64.not_lt.mpr low]
    · simp [write, packTag, fits, low, UInt64.not_le.mp low, overwrite, eq_comm, and_comm]
  · simp [write, fits, eq_comm, and_comm]

theorem ne_iff_spoils (failed : record.write buffer = (left, .error failure)) :
    left ≠ buffer ↔ record.Spoils buffer := by
  rcases write_eq_error_iff.mp failed with ⟨wrong, _, rfl⟩ | ⟨fits, untagged, _, rfl⟩
  · exact ⟨fun changed => absurd rfl changed, fun spoils => absurd spoils.fits wrong⟩
  · rw [Ne, overwrite_eq_iff]
    exact ⟨fun other => ⟨fits, untagged, other⟩, fun spoils => spoils.other⟩

/-- The head written over an entry whose user key has the same length makes an entry of the new user
key, with the sequence number, the kind and the value of the old version. -/
theorem decode_overwrite {old : Record} (spelled : decode buffer = .ok old)
    (sameLength : old.userKey.length = record.userKey.length) :
    decode (record.overwrite buffer) = .ok { old with userKey := record.userKey } := by
  obtain ⟨key, keyFits, valueFits, decoded, rfl⟩ := decode_eq_ok_iff_layout.mp spelled
  have encoded := (InternalKey.encode_decode decoded).2
  simp only [InternalKey.encode, internalKey, bind_eq_ok, pure, Except.pure, Except.ok.injEq]
    at encoded
  obtain ⟨tag, packed, rfl⟩ := encoded
  have renamed : InternalKey.encode { old.internalKey with userKey := record.userKey }
      = .ok (record.userKey ++ littleEndian tagSize tag.toNat) := by
    simp only [InternalKey.encode, internalKey, packed]
    rfl
  have heads : old.head.length = record.head.length := by
    rw [length_head, length_head, sameLength]
  have laidOut : layout (old.userKey ++ littleEndian tagSize tag.toNat) old.value
      = old.head ++ (littleEndian tagSize tag.toNat
        ++ (littleEndian lengthSize old.value.length ++ old.value)) := by
    simp [layout, head]
  refine decode_eq_ok_iff_layout.mpr ⟨_, ?_, valueFits, InternalKey.decode_encode renamed, ?_⟩
  · rw [List.length_append, ← sameLength, ← List.length_append]
    exact keyFits
  · rw [overwrite, laidOut, List.drop_left' heads]
    simp [layout, head]

end Record

namespace TableSession

variable {session : TableSession} {name : String} {draft : Draft} {record : Record} {failure : Failure}

/-- An encoding fails as the write into the draft does, and changes nothing but the bytes of the draft,
to what the write leaves. -/
theorem encode_failed (held : session.drafts.find? name = some draft)
    (failed : (session.execute (.encode name record)).2 = .error (.failed failure)) :
    let tried := (session.execute (.encode name record)).1
    ∃ left, record.write draft.bytes = (left, .error failure) ∧ tried.table = session.table ∧
      ∀ other, tried.drafts.find? other
        = if other = name then some { draft with bytes := left } else session.drafts.find? other := by
  intro tried
  have performed : session.perform (.encode name record)
      = ({ session with
          drafts := session.drafts.put name { draft with bytes := (record.write draft.bytes).1 } },
        StepError.ofFailure ((record.write draft.bytes).2.map fun _ => .done)) := by
    simp only [perform, onDraft, held, Outcome.onState]
  refine ⟨(record.write draft.bytes).1, Prod.ext rfl ?_, ?_, fun other => ?_⟩
  · change (session.perform (.encode name record)).2 = _ at failed
    rw [performed] at failed
    exact error_of_ofFailure failed
  · change (session.perform (.encode name record)).1.table = _
    rw [performed]
  · change (session.perform (.encode name record)).1.drafts.find? other = _
    rw [performed, Named.find?_put]

/-- A draft that was inserted is published with the bytes that it had, whatever happens afterwards. -/
theorem inserted_stays (held : session.drafts.find? name = some draft)
    (inserted : (session.execute (.insert name)).2 = .ok .done) (later : List TableCommand) :
    (((session.execute (.insert name)).1.run later).execute (.arenaEntry draft.handle)).2
      = .ok (.bytes draft.bytes) := by
  have performed : session.perform (.insert name)
      = took { session with drafts := session.drafts.drop name } (fun _ => .done)
          (session.table.insert draft) := by
    simp only [perform, held]
  have taking := session.table.insert_taking draft
  obtain ⟨⟨⟩, answered⟩ : ∃ done, (session.table.insert draft).2 = .ok done := by
    change (session.perform (.insert name)).2 = _ at inserted
    rw [performed] at inserted
    exact ok_of_ofFailure inserted
  rw [answered] at taking
  have stored := (Arena.get_publish taking.stored).1
  have now : (session.execute (.insert name)).1.table = (session.table.insert draft).1 := by
    change (session.perform (.insert name)).1.table = _
    rw [performed]
    rfl
  have found : ((session.execute (.insert name)).1.run later).table.arena.get draft.handle
      = .ok draft.bytes := by
    refine (run_extends _ later).keeps ?_
    rw [now]
    exact stored
  change StepError.ofFailure ((Arena.get _ _).map TableReply.bytes) = _
  rw [found]
  rfl

/-- A failed encoding changes nothing but the bytes of the draft that it was to fill, and those exactly
if it spoils them: they had the right length and did not begin with the length of the key and the user
key, and the sequence number was too large. Bytes of the right length have these two in front then, and
an entry of a user key of the same length has become one of this user key. If the draft is inserted all
the same, what the failed encoding left is read under its handle from then on. -/
theorem failed_encode_overwrites (held : session.drafts.find? name = some draft)
    (failed : (session.execute (.encode name record)).2 = .error (.failed failure)) :
    let tried := (session.execute (.encode name record)).1
    ∃ left, tried.table = session.table ∧
      (∀ other, tried.drafts.find? other
        = if other = name then some { draft with bytes := left } else session.drafts.find? other) ∧
      left.length = draft.bytes.length ∧
      (left ≠ draft.bytes ↔ record.Spoils draft.bytes) ∧
      (draft.bytes.length ≠ record.size → failure = .wrongBufferLength) ∧
      (draft.bytes.length = record.size → failure = .sequenceTooLarge record.sequence ∧
        left = record.head ++ draft.bytes.drop record.head.length ∧
        ∀ old, Record.decode draft.bytes = .ok old →
          old.userKey.length = record.userKey.length →
          Record.decode left = .ok { old with userKey := record.userKey }) ∧
      ((tried.execute (.insert name)).2 = .ok .done → ∀ later,
        (((tried.execute (.insert name)).1.run later).execute (.arenaEntry draft.handle)).2
          = .ok (.bytes left)) := by
  intro tried
  obtain ⟨left, broke, table, drafts⟩ := encode_failed held failed
  have holds : tried.drafts.find? name = some { draft with bytes := left } := by
    rw [drafts, if_pos rfl]
  have spoiled := Record.ne_iff_spoils broke
  rcases Record.write_eq_error_iff.mp broke with ⟨wrong, cause, same⟩ | ⟨fits, _, cause, same⟩
  · exact ⟨left, table, drafts, congrArg List.length same, spoiled, fun _ => cause,
      fun fits => absurd fits wrong, inserted_stays holds⟩
  · refine ⟨left, table, drafts, ?_, spoiled, fun wrong => absurd fits wrong,
      fun _ => ⟨cause, same, fun old => ?_⟩, inserted_stays holds⟩
    · rw [same, Record.length_overwrite fits]
    · rw [same]
      exact Record.decode_overwrite

/-- A draft with an entry is left with that of another user key, which is then inserted. -/
theorem failed_encode_overwrites_entry :
    let table : MemTable := .skipList {
      shelf := { order := .versioned, arena := { id := 0 } }
      index := .empty fun _ => 1 }
    let written : Bytes := [9, 0, 0, 0, 98, 1, 1, 0, 0, 0, 0, 0, 0, 0, 0, 0, 0]
    let now := run { table } [.allocate "b" 17, .encode "b" ⟨[98], 1, .put, []⟩]
    let failing : TableCommand := .encode "b" ⟨[97], 72057594037927936, .put, []⟩
    let tried := (now.execute failing).1
    now.drafts.find? "b" = some ⟨0, ⟨0⟩, written⟩ ∧
      (now.execute failing).2 = .error (.failed (.sequenceTooLarge 72057594037927936)) ∧
      ∃ left, left ≠ written ∧ Record.decode left = .ok ⟨[97], 1, .put, []⟩ ∧
        ((tried.execute (.insert "b")).1.execute (.arenaEntry ⟨0⟩)).2 = .ok (.bytes left) := by
  intro table written now failing tried
  have held : now.drafts.find? "b" = some ⟨0, ⟨0⟩, written⟩ := by decide +kernel
  have failed : (now.execute failing).2 = .error (.failed (.sequenceTooLarge 72057594037927936)) := by
    decide +kernel
  obtain ⟨left, _, _, _, spoiled, _, overwritten, stored⟩ := failed_encode_overwrites held failed
  have spelled : Record.decode written = .ok ⟨[98], 1, .put, []⟩ := by decide +kernel
  refine ⟨held, failed, left, ?_, (overwritten rfl).2.2 _ spelled rfl, ?_⟩
  · exact spoiled.mpr ⟨rfl, by decide, by decide⟩
  · exact stored (by decide +kernel) []

/-- After a failed encoding, a scan shows a version that nobody wrote in place of the one that was. -/
theorem scan_shows_overwritten_entry :
    let table : MemTable := .skipList {
      shelf := { order := .versioned, arena := { id := 0 } }
      index := .empty fun _ => 1 }
    let now := run { table } [.allocate "b" 17, .encode "b" ⟨[98], 1, .put, []⟩]
    let failing : TableCommand := .encode "b" ⟨[97], 72057594037927936, .put, []⟩
    (now.execute failing).2 = .error (.failed (.sequenceTooLarge 72057594037927936)) ∧
      (((now.execute failing).1.run [.insert "b"]).execute .scan).2
        = .ok (.entries [[9, 0, 0, 0, 97, 1, 1, 0, 0, 0, 0, 0, 0, 0, 0, 0, 0]]) ∧
      ((now.run [.insert "b"]).execute .scan).2
        = .ok (.entries [[9, 0, 0, 0, 98, 1, 1, 0, 0, 0, 0, 0, 0, 0, 0, 0, 0]]) := by
  decide +kernel

end TableSession

end WriteBuffer
