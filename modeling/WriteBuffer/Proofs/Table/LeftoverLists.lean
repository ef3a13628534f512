import Mathlib
import WriteBuffer.Proofs.FailedInserts

/-!
The list that a failed insert leaves behind. Of two tables that are alike, one may have a list without
nodes in a bucket to which the other has given none (`HashedSkipTable.Leaves`). No cursor moves
differently in the one than in the other (`HashedSkipTable.Alike.moves_eq`), and neither asking nor
inserting tells them apart. The bucket does when a cursor over it is asked for: without a list there is
nothing to go along, and a cursor over nothing stays so (`MemTable.Leaves.openCursor`).
-/
namespace WriteBuffer

/-- A draft under whose handle nothing is published can only be refused as one of another arena. -/
theorem Arena.refused_foreign {arena : Arena} {draft : Draft} {failure : Failure}
    (free : draft.arena = arena.id → arena.entries.get? draft.handle.index = none)
    (refused : arena.publish draft = .error failure) :
    failure = .foreignBuffer ∧ draft.arena ≠ arena.id := by
  simp only [publish] at refused
  split at refused
  · next foreign => exact ⟨(Except.error.inj refused).symm, foreign⟩
  · next own => simp [ChunkStore.publish, free (not_not.mp own)] at refused

/-- Cursors do not move differently along two lists without nodes. -/
theorem SkipList.Vacant.moves_eq {list other : SkipList} (vacant : list.Vacant)
    (otherVacant : other.Vacant) (nodes : NodeStore) (shelf : Shelf) :
    list.moves nodes shelf = other.moves nodes shelf := by
  have before : ∀ below, list.seekBefore nodes below = other.seekBefore nodes below := by
    intro below
    simp only [seekBefore, vacant.splice_eq, otherVacant.splice_eq]
  have start : list.first nodes = other.first nodes :=
    (vacant.link_eq nodes).trans (otherVacant.link_eq nodes).symm
  simp only [moves, Moves.mk.injEq, last, vacant.seek_eq, otherVacant.seek_eq, start, before,
    true_and, and_true]
  rfl

namespace HashedSkipTable

variable {a b : HashedSkipTable} {left : Option Nat}

theorem vacant_single : SkipList.Vacant { head := [none] } := ⟨rfl, rfl⟩

namespace Alike

theorem listMoves_eq (alike : a.Alike b) : listMoves b = listMoves a := by
  have read : ∀ (table : HashedSkipTable) (bucket : Nat), listMoves table bucket
      = (table.index.buckets.get? bucket).elim
        (SkipList.moves { head := [none] } table.index.nodes table.shelf)
        (·.moves table.index.nodes table.shelf) := by
    intro table bucket
    simp only [listMoves]
    cases table.index.buckets.get? bucket <;> rfl
  funext bucket
  rw [read, read, alike.nodes, alike.shelf,
    alike.elim_eq fun list vacant => vacant.moves_eq vacant_single _ _]

/-- A bucket that has a list in one table only has nothing to show. -/
theorem seek_bucket (alike : a.Alike b) {bucket : Nat}
    (differs : (b.index.buckets.get? bucket).isSome ≠ (a.index.buckets.get? bucket).isSome)
    (internalKey : Bytes) (place : Option NodeId) :
    (listMoves a bucket).seek internalKey place = .ok none := by
  cases inA : a.index.buckets.get? bucket with
  | none =>
    simp only [listMoves, inA, Option.getD_none]
    exact vacant_single.seek_eq ..
  | some list =>
    have offered : a.listAt bucket = .ok list := by simp only [listAt, inA]
    cases inB : b.index.buckets.get? bucket with
    | none =>
      have vacant := vacant_listAt inB ((alike.lists bucket).trans offered)
      simp only [listMoves, inA, Option.getD_some]
      exact vacant.seek_eq ..
    | some other => simp [inA, inB] at differs

/-- Cursors within groups move alike, whether the bucket sought has no list or one without nodes. -/
theorem groupMoves_eq (alike : a.Alike b) (rule : PrefixRule) :
    GroupCursor.moves rule (bucketCursor b) (BucketCursor.moves (listMoves a))
      = GroupCursor.moves rule (bucketCursor a) (BucketCursor.moves (listMoves a)) := by
  simp only [GroupCursor.moves, Moves.mk.injEq, true_and, and_true]
  funext internalKey cursor
  refine bind_congr fun userKey => bind_congr fun group => ?_
  simp only [bucketCursor, alike.bucketOf_eq, bind_assoc, pure_bind]
  refine bind_congr fun bucket => ?_
  by_cases same : (b.index.buckets.get? bucket).isSome = (a.index.buckets.get? bucket).isSome
  · cases inA : a.index.buckets.get? bucket <;> cases inB : b.index.buckets.get? bucket <;>
      simp_all
  · have dropped : (do
        let place ← (BucketCursor.moves (listMoves a)).seek internalKey { bucket }
        GroupCursor.clamp rule (BucketCursor.moves (listMoves a)) { group, inner := some place })
          = .ok { group } := by
      have unplaced := alike.seek_bucket same internalKey none
      simp only [BucketCursor.moves, unplaced, bind, Except.bind, pure, Except.pure,
        GroupCursor.clamp]
      rfl
    cases inA : a.index.buckets.get? bucket <;> cases inB : b.index.buckets.get? bucket
    · exact absurd (by rw [inA, inB]) same
    · exact dropped
    · exact dropped.symm
    · exact absurd (by rw [inA, inB]; rfl) same

/-- No cursor moves differently in tables that are alike. -/
theorem moves_eq (alike : a.Alike b) :
    (MemTable.hashedSkipLists b).moves = (MemTable.hashedSkipLists a).moves := by
  simp only [MemTable.moves, MemTable.bucketMoves, alike.listMoves_eq, alike.shelf]
  rw [← alike.groupMoves_eq, alike.index]

/-- Inserts into a given list leave the same lists in the same buckets of tables that are alike. -/
theorem insertInto_gives (alike : a.Alike b) (draft : Draft) (bucket : Nat) (list : SkipList)
    (takenA takenB : Nat) : ∃ given : Nat → Option SkipList, ∀ other,
      (HashedSkipTable.insertInto draft bucket list takenA a).1.index.buckets.get? other
          = (given other).or (a.index.buckets.get? other) ∧
        (HashedSkipTable.insertInto draft bucket list takenB b).1.index.buckets.get? other
          = (given other).or (b.index.buckets.get? other) := by
  simp only [HashedSkipTable.insertInto, Table.takeIn, Table.publish, alike.shelf, alike.nodes]
  cases list.spliceFor a.index.nodes a.shelf draft.bytes with
  | error failure => exact ⟨fun _ => none, fun _ => ⟨rfl, rfl⟩⟩
  | ok splice =>
    cases a.shelf.arena.publish draft with
    | error failure => exact ⟨fun _ => none, fun _ => ⟨rfl, rfl⟩⟩
    | ok arena =>
      simp only [bind, Except.bind, pure, Except.pure, alike.nodes, alike.heights]
      cases list.insertAt a.index.nodes a.index.heights splice draft.handle with
      | error failure => exact ⟨fun _ => none, fun _ => ⟨rfl, rfl⟩⟩
      | ok inserted =>
        refine ⟨fun other => if other = bucket then some inserted.2.1 else none, fun other => ?_⟩
        simp only [commit, HashedSkipTable.setList, Sparse.get?_put]
        split <;> exact ⟨rfl, rfl⟩

/-- An insert leaves the same lists in the same buckets of tables that are alike. -/
theorem insert_gives (alike : a.Alike b) (draft : Draft) : ∃ given : Nat → Option SkipList,
    ∀ bucket, (HashedSkipTable.insert draft a).1.index.buckets.get? bucket
        = (given bucket).or (a.index.buckets.get? bucket) ∧
      (HashedSkipTable.insert draft b).1.index.buckets.get? bucket
        = (given bucket).or (b.index.buckets.get? bucket) := by
  simp only [HashedSkipTable.insert, Table.asWriter, alike.gate]
  cases a.gate.enter .hashedSkipLists with
  | error failure => exact ⟨fun _ => none, fun _ => ⟨rfl, rfl⟩⟩
  | ok gate =>
    have entered : Alike { a with gate } { b with gate } :=
      ⟨alike.shelf, rfl, alike.index, alike.size, alike.lists⟩
    simp only
    rcases entered.offer_cases draft.bytes with
      ⟨failure, inA, inB⟩ | ⟨bucket, list, takenA, takenB, inA, inB⟩
    · rw [inA, inB]
      exact ⟨fun _ => none, fun _ => ⟨rfl, rfl⟩⟩
    · rw [inA, inB]
      obtain ⟨given, gives⟩ :=
        (entered.setList bucket list).insertInto_gives draft bucket list takenA takenB
      refine ⟨fun other => (given other).or (if other = bucket then some list else none),
        fun other => ?_⟩
      obtain ⟨givenA, givenB⟩ := gives other
      simp only [HashedSkipTable.setList, Sparse.get?_put] at givenA givenB ⊢
      rw [givenA, givenB]
      cases given other <;> split <;> exact ⟨rfl, rfl⟩

end Alike

/-- Two tables agree but for a list without nodes in a bucket that has no list in the first. -/
structure Leaves (left : Option Nat) (a b : HashedSkipTable) : Prop extends a.Alike b where
  buckets : ∀ bucket, b.index.buckets.get? bucket = a.index.buckets.get? bucket ∨
    bucket ∈ left ∧ a.index.buckets.get? bucket = none ∧ (b.index.buckets.get? bucket).isSome

namespace Leaves

/-- Inserts have the same outcome whether or not such a list is left, and leave no other. -/
theorem insert (leaves : a.Leaves left b) (draft : Draft) :
    (HashedSkipTable.insert draft b).2 = (HashedSkipTable.insert draft a).2 ∧
      (HashedSkipTable.insert draft a).1.Leaves left (HashedSkipTable.insert draft b).1 := by
  obtain ⟨answer, alike⟩ := leaves.toAlike.insert draft
  obtain ⟨given, gives⟩ := leaves.toAlike.insert_gives draft
  refine ⟨answer, alike, fun bucket => ?_⟩
  rw [(gives bucket).1, (gives bucket).2]
  cases given bucket with
  | some list => exact .inl rfl
  | none => exact leaves.buckets bucket

/-- A bucket is opened alike, unless its list is the one that is left. -/
theorem bucketCursor (leaves : a.Leaves left b) (userKey : Bytes) :
    HashedSkipTable.bucketCursor b userKey = HashedSkipTable.bucketCursor a userKey ∨
      ∃ bucket ∈ left, HashedSkipTable.bucketCursor a userKey = .ok none ∧
        HashedSkipTable.bucketCursor b userKey = .ok (some { bucket }) := by
  simp only [HashedSkipTable.bucketCursor, leaves.bucketOf_eq]
  cases a.index.bucketOf userKey with
  | error failure => exact .inl rfl
  | ok bucket =>
    simp only [bind, Except.bind, pure, Except.pure]
    rcases leaves.buckets bucket with same | ⟨member, missing, present⟩
    · exact .inl (by rw [same])
    · obtain ⟨list, found⟩ := Option.isSome_iff_exists.mp present
      exact .inr ⟨bucket, member, by rw [missing]; rfl, by rw [found]; rfl⟩

end Leaves

/-- An entry would be the first to be offered to its bucket. -/
def FirstIn (table : HashedSkipTable) (entry : Bytes) (bucket : Nat) : Prop :=
  (do table.index.bucketOf (← entryUserKey entry)) = .ok bucket ∧
    table.index.buckets.get? bucket = none

theorem FirstIn.offer_error {table : HashedSkipTable} {entry : Bytes} {bucket : Nat}
    (first : table.FirstIn entry bucket) {failure : Failure}
    (refused : offer table entry = .error failure) : failure ≠ .foreignBuffer := by
  rintro rfl
  obtain ⟨userKey, user, place⟩ := bind_eq_ok.mp first.1
  simp only [offer, user, place, first.2, bind, Except.bind, HashedSkipIndex.listSize,
    SkipList.create] at refused
  split_ifs at refused <;> cases refused

theorem bucket_of_offer {table : HashedSkipTable} {entry : Bytes} {bucket taken : Nat}
    {list : SkipList} (offered : offer table entry = .ok (bucket, list, taken)) :
    (do table.index.bucketOf (← entryUserKey entry)) = .ok bucket := by
  have same := offer_eq table entry
  simp only [offered, Except.map] at same
  obtain ⟨userKey, user, same⟩ := bind_eq_ok.mp same.symm
  simp only [bind_eq_ok, pure, Except.pure, Except.ok.injEq, Prod.mk.injEq] at same
  obtain ⟨_, place, _, _, rfl, _⟩ := same
  exact bind_eq_ok.mpr ⟨userKey, user, place⟩

/-- An insert that fails leaves the table as it was, or with the list that the entry was offered to. -/
theorem insert_failed {table : HashedSkipTable} {draft : Draft}
    (vacant : table.gate.occupied = false) (roomy : Roomy table.shelf.arena table.index.nodes)
    (usable : draft.handle ≠ .nowhere) {failure : Failure}
    (failed : (insert draft table).2 = .error failure) :
    ((insert draft table).1 = table ∧
      (failure = .readOnly .hashedSkipLists ∨ offer table draft.bytes = .error failure)) ∨
    ∃ bucket list taken, offer table draft.bytes = .ok (bucket, list, taken) ∧
      (insert draft table).1 = setList table bucket list ∧
      (list.spliceFor table.index.nodes table.shelf draft.bytes = .error failure ∨
        table.shelf.arena.publish draft = .error failure) := by
  by_cases closed : table.isReadOnly = true
  · rw [insert, Table.asWriter_closed _ _ closed] at failed ⊢
    exact .inl ⟨rfl, .inl (Except.error.inj failed).symm⟩
  · have opened : table.gate.readOnly = false := Bool.eq_false_of_not_eq_true closed
    have unchanged := Table.leave_entered opened vacant
    rw [insert, Table.asWriter_open _ _ opened vacant] at failed ⊢
    have same : offer { table with gate := ⟨false, true⟩ } draft.bytes = offer table draft.bytes := rfl
    cases offered : offer table draft.bytes with
    | error refused =>
      simp only [same, offered] at failed ⊢
      exact .inl ⟨unchanged, .inr (congrArg _ (Except.error.inj failed))⟩
    | ok target =>
      obtain ⟨bucket, list, taken⟩ := target
      simp only [same, offered] at failed ⊢
      let entered : HashedSkipTable := setList { table with gate := ⟨false, true⟩ } bucket list
      have enteredRoomy : Roomy entered.shelf.arena entered.index.nodes := roomy
      refine .inr ⟨bucket, list, taken, rfl, ?_⟩
      rcases insertInto_whole enteredRoomy usable bucket list taken with
        ⟨refused, kept, reason⟩ | ⟨now, done, _⟩
      · obtain rfl := Except.error.inj ((congrArg Prod.snd kept).symm.trans failed)
        rw [kept]
        exact ⟨congrArg (setList · bucket list) unchanged, reason⟩
      · cases (congrArg Prod.snd done).symm.trans failed

/-- What an insert that fails leaves behind: the list of a bucket that had none, if the entry got as
far as the arena, which refused the draft of another one. -/
theorem insert_leaves {table : HashedSkipTable} {draft : Draft}
    (vacant : table.gate.occupied = false) (roomy : Roomy table.shelf.arena table.index.nodes)
    (usable : draft.handle ≠ .nowhere)
    (free : draft.arena = table.shelf.arena.id →
      table.shelf.arena.entries.get? draft.handle.index = none) {failure : Failure}
    (failed : (insert draft table).2 = .error failure) :
    ∃ left, table.Leaves left (insert draft table).1 ∧ ∀ bucket,
      (bucket ∈ left ↔ failure = .foreignBuffer ∧ draft.arena ≠ table.shelf.arena.id ∧
        table.FirstIn draft.bytes bucket) ∧
      (bucket ∈ left → ((insert draft table).1.index.buckets.get? bucket).isSome) := by
  rcases insert_failed vacant roomy usable failed with
    ⟨same, reason⟩ | ⟨bucket, list, taken, offered, given, reason⟩
  · refine ⟨none, same.symm ▸ ⟨.refl _, fun _ => .inl rfl⟩, fun bucket => ⟨⟨by rintro ⟨⟩, ?_⟩, by rintro ⟨⟩⟩⟩
    rintro ⟨rfl, _, first⟩
    rcases reason with closed | refused
    · cases closed
    · exact absurd rfl (first.offer_error refused)
  · have listAt := listAt_of_offer offered
    have alike : table.Alike (setList table bucket list) := .ofOffered listAt
    have buckets : ∀ other, (setList table bucket list).index.buckets.get? other
        = if other = bucket then some list else table.index.buckets.get? other :=
      fun other => Sparse.get?_put ..
    have only : ∀ {other}, table.FirstIn draft.bytes other → other = bucket := fun first =>
      Except.ok.inj (first.1.symm.trans (bucket_of_offer offered))
    rw [given]
    cases before : table.index.buckets.get? bucket with
    | some present =>
      have kept : list = present := by
        simp only [HashedSkipTable.listAt, before] at listAt
        exact (Except.ok.inj listAt).symm
      refine ⟨none, ⟨alike, fun other => .inl ?_⟩, fun other => ⟨⟨by rintro ⟨⟩, ?_⟩, by rintro ⟨⟩⟩⟩
      · rw [buckets]
        split
        · next same => rw [same, before, kept]
        · rfl
      · rintro ⟨_, _, first⟩
        cases first.2.symm.trans (only first ▸ before)
    | none =>
      have refused : failure = .foreignBuffer ∧ draft.arena ≠ table.shelf.arena.id := by
        rw [(vacant_listAt before listAt).spliceFor_eq] at reason
        exact Arena.refused_foreign free (reason.resolve_left (by rintro ⟨⟩))
      refine ⟨some bucket, ⟨alike, fun other => ?_⟩, fun other => ?_⟩
      · rw [buckets]
        split
        · next same => exact .inr ⟨same ▸ rfl, same ▸ before, rfl⟩
        · exact .inl rfl
      · rw [Option.mem_some_iff, buckets]
        refine ⟨⟨?_, fun all => (only all.2.2).symm⟩, fun same => by rw [if_pos same.symm]; rfl⟩
        rintro rfl
        exact ⟨refused.1, refused.2, bucket_of_offer offered, before⟩

end HashedSkipTable

namespace MemTable

variable {a b : MemTable} {left : Option Nat}

/-- Two tables agree but for a list without nodes in a bucket that has no list in the first. -/
inductive Leaves (left : Option Nat) : MemTable → MemTable → Prop
  | same (table : MemTable) : Leaves left table table
  | hashedSkipLists {a b : HashedSkipTable} (leaves : a.Leaves left b) :
    Leaves left (hashedSkipLists a) (hashedSkipLists b)

namespace Leaves

theorem alike (leaves : a.Leaves left b) : a.Alike b := by
  cases leaves with
  | same => exact .same a
  | hashedSkipLists leaves => exact .hashedSkipLists leaves.toAlike

theorem moves_eq (leaves : a.Leaves left b) : b.moves = a.moves := by
  cases leaves with
  | same => rfl
  | hashedSkipLists leaves => exact leaves.toAlike.moves_eq

theorem allocate (leaves : a.Leaves left b) (size : Nat) :
    Agree (Leaves left) (a.allocate size) (b.allocate size) := by
  cases leaves with
  | same => exact ⟨rfl, .same _⟩
  | @hashedSkipLists a b leaves =>
    have answer : (b.shelf.arena.allocate size).2 = (a.shelf.arena.allocate size).2 := by
      rw [leaves.shelf]
    have shelf := congrArg (fun shelf : Shelf =>
      { shelf with arena := (shelf.arena.allocate size).1 }) leaves.shelf
    exact ⟨answer, .hashedSkipLists
      ⟨⟨shelf, leaves.gate, leaves.index, leaves.size, leaves.lists⟩, leaves.buckets⟩⟩

theorem insert (leaves : a.Leaves left b) (draft : Draft) :
    Agree (Leaves left) (a.insert draft) (b.insert draft) := by
  cases leaves with
  | same => exact ⟨rfl, .same _⟩
  | hashedSkipLists leaves =>
    obtain ⟨answer, now⟩ := leaves.insert draft
    exact ⟨answer, .hashedSkipLists now⟩

theorem add (leaves : a.Leaves left b) (record : Record) :
    Agree (Leaves left) (a.add record) (b.add record) := by
  obtain ⟨same, tables⟩ := leaves.allocate record.size
  simp only [MemTable.add]
  generalize a.allocate record.size = x at same tables ⊢
  generalize b.allocate record.size = y at same tables ⊢
  obtain ⟨a, first⟩ := x
  obtain ⟨b, allocated⟩ := y
  simp only at same tables
  subst same
  cases allocated with
  | error failure => exact ⟨rfl, tables⟩
  | ok draft =>
    simp only
    rcases record.write draft.bytes with ⟨bytes, failure | done⟩
    · exact ⟨rfl, tables⟩
    · obtain ⟨answer, now⟩ := tables.insert { draft with bytes }
      exact ⟨congrArg (Except.map fun _ => draft.handle) answer, now⟩

theorem contains (leaves : a.Leaves left b) (internalKey : Bytes) :
    Agree (Leaves left) (a.contains internalKey) (b.contains internalKey) := by
  refine ⟨leaves.alike.sameAnswers.contains internalKey, ?_⟩
  cases leaves with
  | same => exact .same _
  | hashedSkipLists leaves => exact .hashedSkipLists leaves

theorem get (leaves : a.Leaves left b) (key : LookupKey) (goesOn : List Bytes → Bool) :
    Agree (Leaves left) (a.get key goesOn) (b.get key goesOn) := by
  refine ⟨leaves.alike.sameAnswers.get key goesOn, ?_⟩
  cases leaves with
  | same => exact .same _
  | hashedSkipLists leaves =>
    simp only [MemTable.get]
    cases key.userKey <;> exact .hashedSkipLists leaves

theorem scan (leaves : a.Leaves left b) : Agree (Leaves left) a.scan b.scan := by
  refine ⟨leaves.alike.sameAnswers.scan, ?_⟩
  cases leaves with
  | same => exact .same _
  | hashedSkipLists leaves => exact .hashedSkipLists leaves

theorem scanBackward (leaves : a.Leaves left b) : Agree (Leaves left) a.scanBackward b.scanBackward := by
  refine ⟨leaves.alike.sameAnswers.scanBackward, ?_⟩
  cases leaves with
  | same => exact .same _
  | hashedSkipLists leaves => exact .hashedSkipLists leaves

theorem close (leaves : a.Leaves left b) : Agree (Leaves left) a.close b.close := by
  cases leaves with
  | same => exact ⟨rfl, .same _⟩
  | @hashedSkipLists a b leaves =>
    have closed : (Table.close .hashedSkipLists b).gate = (Table.close .hashedSkipLists a).gate :=
      congrArg Gate.close leaves.gate
    exact ⟨rfl, .hashedSkipLists
      ⟨⟨leaves.shelf, closed, leaves.index, leaves.size, leaves.lists⟩, leaves.buckets⟩⟩

/-- Tables hand out the same cursor, but over a bucket whose list is the one that is left: there one
has a cursor over nothing, and the other one along the list. -/
theorem openCursor (leaves : a.Leaves left b) (range : Range) :
    (a.openCursor range).1.Leaves left (b.openCursor range).1 ∧
      ((b.openCursor range).2 = (a.openCursor range).2 ∨ ∃ bucket ∈ left,
        (a.openCursor range).2 = .ok .nothing ∧ (b.openCursor range).2 = .ok (.list { bucket })) := by
  cases leaves with
  | same => exact ⟨.same _, .inl rfl⟩
  | @hashedSkipLists a b leaves =>
    refine ⟨.hashedSkipLists leaves, ?_⟩
    cases range with
    | all =>
      refine .inl ?_
      simp only [MemTable.openCursor, leaves.sortedHandles_eq]
    | groups => exact .inl rfl
    | bucketOf userKey =>
      simp only [MemTable.openCursor]
      refine (leaves.bucketCursor userKey).imp (fun same => by rw [same]) ?_
      rintro ⟨bucket, member, nothing, list⟩
      exact ⟨bucket, member, by rw [nothing]; rfl, by rw [list]; rfl⟩

end Leaves

/-- An entry would be the first to be offered to its bucket in a table with lists by bucket. -/
def FirstIn (table : MemTable) (entry : Bytes) (bucket : Nat) : Prop :=
  ∃ lists, table = hashedSkipLists lists ∧ lists.FirstIn entry bucket

/-- An insert that fails leaves a table as it was, or with the list of a bucket that had none: if its
draft was of another arena and the first with an entry for the bucket. Over that bucket there was no
cursor to be had, and there is one now. -/
theorem Sound.insert_leaves {table : MemTable} (sound : table.Sound) {draft : Draft}
    (usable : draft.handle ≠ .nowhere)
    (free : draft.arena = table.arena.id → table.arena.entries.get? draft.handle.index = none)
    {failure : Failure} (failed : (table.insert draft).2 = .error failure) :
    ∃ left, table.Leaves left (table.insert draft).1 ∧ ∀ bucket,
      (bucket ∈ left ↔ failure = .foreignBuffer ∧ draft.arena ≠ table.arena.id ∧
        table.FirstIn draft.bytes bucket) ∧
      (bucket ∈ left → ∃ userKey, entryUserKey draft.bytes = .ok userKey ∧
        (table.openCursor (.bucketOf userKey)).2 = .ok .nothing ∧
        ((table.insert draft).1.openCursor (.bucketOf userKey)).2 = .ok (.list { bucket })) := by
  by_cases lists : table.kind = .hashedSkipLists
  · cases table with
    | hashedSkipLists table =>
      obtain ⟨left, leaves, exactly⟩ :=
        HashedSkipTable.insert_leaves sound.vacant sound.index usable free failed
      refine ⟨left, .hashedSkipLists leaves, fun bucket => ⟨(exactly bucket).1.trans ?_, ?_⟩⟩
      · refine and_congr_right fun _ => and_congr_right fun _ => ⟨fun first => ⟨table, rfl, first⟩, ?_⟩
        rintro ⟨_, same, first⟩
        cases same
        exact first
      · intro member
        obtain ⟨_, _, place, missing⟩ := (exactly bucket).1.mp member
        obtain ⟨list, present⟩ := Option.isSome_iff_exists.mp ((exactly bucket).2 member)
        obtain ⟨userKey, user, place⟩ := bind_eq_ok.mp place
        have placeNow := (leaves.bucketOf_eq userKey).trans place
        refine ⟨userKey, user, ?_, ?_⟩
        · simp only [MemTable.openCursor, HashedSkipTable.bucketCursor, place, missing, bind,
            Except.bind, pure, Except.pure]
          rfl
        · simp only [MemTable.insert, Outcome.onState, MemTable.openCursor,
            HashedSkipTable.bucketCursor, placeNow, present, bind, Except.bind, pure, Except.pure]
          rfl
    | skipList | vector | hashedChains | cuckoo => cases lists
  · have same : (table.insert draft).1 = table := by
      rcases sound.insert_cases usable with ⟨kept, _, inserted, alike, _⟩ | ⟨now, inserted, _⟩
      · rw [inserted]
        exact alike.eq_of_kind lists
      · cases (congrArg Prod.snd inserted).symm.trans failed
    refine ⟨none, same.symm ▸ .same table, fun bucket => ⟨⟨by rintro ⟨⟩, ?_⟩, by rintro ⟨⟩⟩⟩
    rintro ⟨_, _, _, rfl, _⟩
    exact absurd rfl lists

end MemTable

end WriteBuffer
