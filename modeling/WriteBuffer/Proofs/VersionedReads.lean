import Mathlib
import WriteBuffer.Proofs.Scans

/-!
Reads of versions. A lookup shows a visitor first the versions of its user key that are visible to
it, the newest first, and then entries of greater user keys only (`MemTable.get_shows_versions`).
-/
namespace WriteBuffer

namespace MemTable

variable {order : KeyOrder} {placing : Option (Placement × Nat)} {taken : List Bytes}
  {keys : Bytes → Prop} {table : MemTable} {userKey : Bytes}

/-- The bucket of a user key can be told, if the table has buckets. -/
def Places (placing : Option (Placement × Nat)) (userKey : Bytes) : Prop :=
  ∀ {placement count}, placing = some (placement, count) →
    0 < count ∧ ∃ group, placement.rule.groupOf userKey = .ok group

theorem Places.bucketOf_ok {placement : Placement} {count : Nat}
    (places : Places (some (placement, count)) userKey) :
    ∃ bucket, placement.bucketOf count userKey = .ok bucket := by
  obtain ⟨positive, group, cut⟩ := places rfl
  simp [Placement.bucketOf, cut, Nat.ne_of_gt positive, bind, Except.bind, pure, Except.pure]

/-- A cursor over a bucket of an arrangement, whether the bucket is filled or not. -/
theorem bucket_follows {β : Type} {shelf : Shelf} {placement : Placement} {slots : Sparse β}
    {linked : Nat → List Row → Prop} {rows : Nat → List Row} {held : Nat → List Bytes}
    {lists : Nat → Moves (Option NodeId)} {bucket : Nat} (rule : PrefixRule)
    (openBucket : Bytes → Except Failure (Option BucketCursor))
    (arranged : Arranged shelf placement slots linked rows held taken)
    (follows : (lists bucket).Follows shelf.order (held bucket) (nodeAt (rows bucket))) :
    ∃ place, ((slots.get? bucket).map fun _ => ({ bucket } : BucketCursor)).elim .nothing .list
        = place none ∧
      (bucketMoves shelf rule lists openBucket).Follows shelf.order (held bucket) place := by
  cases filled : slots.get? bucket with
  | none =>
    rw [arranged.vacant bucket filled]
    exact ⟨_, rfl, bucketMoves_nothing⟩
  | some content => exact ⟨_, rfl, bucketMoves_list follows⟩

/-- A cursor over the bucket of a user key follows entries of the table in order, among them all
those of the user key. -/
theorem Holds.opensBucket (holds : table.Holds order placing taken) (total : order.TotalOn keys)
    (readable : ∀ entry ∈ taken, HasKey keys entry) (untied : order.Untied taken)
    (places : Places placing userKey) :
    ∃ entries place, (table.openCursor (.bucketOf userKey)).2 = .ok (place none) ∧
      (table.openCursor (.bucketOf userKey)).1.moves.Follows order entries place ∧
      order.Sorted entries ∧ (∀ entry ∈ entries, entry ∈ taken) ∧
      ∀ entry ∈ taken, entryUserKey entry = .ok userKey → entry ∈ entries := by
  obtain ⟨rfl, rfl, index⟩ := holds
  cases table with
  | cuckoo table => exact index.elim
  | vector table =>
    obtain ⟨entries, place, opened, follows, sorted, perm⟩ :=
      vector_opensAll index total readable untied (.bucketOf userKey)
    exact ⟨entries, place, opened, follows, sorted, fun _ => perm.mem_iff.mp,
      fun _ member _ => perm.mem_iff.mpr member⟩
  | skipList table =>
    obtain ⟨rows, entries, arranges⟩ := index
    exact ⟨entries, fun at? => .list { place := nodeAt rows at? }, rfl,
      bucketMoves_list (arranges.follows total readable), arranges.sorted,
      fun _ => arranges.all.mem_iff.mp, fun _ member _ => arranges.all.mem_iff.mpr member⟩
  | hashedSkipLists table =>
    obtain ⟨bucket, found⟩ := places.bucketOf_ok
    obtain ⟨rows, held, arranges⟩ := index
    obtain ⟨place, opened, follows⟩ := bucket_follows table.index.placement.rule
      (HashedSkipTable.bucketCursor table) arranges.1
      (HashedSkipTable.listMoves_follows arranges total readable bucket)
    refine ⟨held bucket, place, ?_, follows, arranges.1.sorted bucket,
      fun entry member => arranges.1.mem_iff.mpr ⟨bucket, member⟩,
      fun entry member cut => arranges.1.mem_bucket found member cut⟩
    simp only [MemTable.openCursor, HashedSkipTable.bucketCursor, HashedSkipIndex.bucketOf, found,
      bind, Except.bind, pure, Except.pure, opened]
  | hashedChains table =>
    obtain ⟨bucket, found⟩ := places.bucketOf_ok
    obtain ⟨rows, held, arranges⟩ := index
    obtain ⟨place, opened, follows⟩ := bucket_follows table.index.placement.rule
      (HashedChainTable.bucketCursor table) arranges.1
      (HashedChainTable.listMoves_follows arranges bucket)
    refine ⟨held bucket, place, ?_, follows, arranges.1.sorted bucket,
      fun entry member => arranges.1.mem_iff.mpr ⟨bucket, member⟩,
      fun entry member cut => arranges.1.mem_bucket found member cut⟩
    simp only [MemTable.openCursor, HashedChainTable.bucketCursor, HashedChainIndex.bucketOf, found,
      bind, Except.bind, pure, Except.pure, opened]

/-- A lookup in an ordered table shows a visitor the entries of the bucket that are not below it. -/
theorem Holds.get_shows (holds : table.Holds order placing taken) (total : order.TotalOn keys)
    (readable : ∀ entry ∈ taken, HasKey keys entry) (untied : order.Untied taken)
    (places : Places placing userKey) {key : LookupKey} (looked : key.userKey = .ok userKey)
    (held : keys key.internalKey) :
    ∃ front back, order.Splits key.internalKey front back ∧ order.Sorted back ∧
      (∀ goesOn, (table.get key goesOn).2 = .ok (seen goesOn [] back)) ∧
      (∀ entry ∈ back, entry ∈ taken) ∧
      ∀ entry ∈ taken, entryUserKey entry = .ok userKey → entry ∈ front ++ back := by
  obtain ⟨entries, place, opened, follows, sorted, sub, all⟩ :=
    holds.opensBucket total readable untied places
  obtain ⟨front, back, rfl, split⟩ :=
    total.splits held (fun entry member => readable entry (sub entry member)) sorted
  refine ⟨front, back, split, (List.pairwise_append.mp sorted).2.1, ?_, ?_, all⟩
  · intro goesOn
    have shown := follows.visitFrom none rfl split goesOn
    cases table with
    | cuckoo table => exact holds.index.elim
    | skipList table | vector table | hashedSkipLists table | hashedChains table =>
      simp only [MemTable.get, looked, opened, bind, Except.bind, shown]
  · intro entry member
    exact sub entry (List.mem_append_right _ member)

/-- An entry that is a version of a user key, visible as of a sequence number. -/
def VisibleAt (userKey : Bytes) (sequence : UInt64) (entry : Bytes) : Prop :=
  ∃ record, Record.decode entry = .ok record ∧ record.userKey = userKey ∧
    record.sequence ≤ sequence

/-- One entry is newer than another one: its sequence number is greater, or the same and its kind
greater. -/
def Newer (a b : Bytes) : Prop :=
  ∃ x y, Record.decode a = .ok x ∧ Record.decode b = .ok y ∧
    (y.sequence < x.sequence ∨ (y.sequence = x.sequence ∧ y.kind.code < x.kind.code))

/-- An entry whose user key is greater than a given one. -/
def OfGreaterKey (userKey entry : Bytes) : Prop :=
  ∃ record, Record.decode entry = .ok record ∧ compare record.userKey userKey = .gt

/-- A list in which no element with a property comes after one without begins with all of those that
have it. -/
theorem filter_append_filter {α : Type} {p : α → Bool} {xs : List α}
    (closed : xs.Pairwise fun x y => p y → p x) : xs.filter p ++ xs.filter (!p ·) = xs := by
  induction xs with
  | nil => rfl
  | cons x rest ih =>
    obtain ⟨first, closed⟩ := List.pairwise_cons.mp closed
    by_cases has : p x
    · simp [has, ih closed]
    · have none : ∀ y ∈ rest, ¬ p y := fun y member later => has (first y member later)
      rw [List.filter_cons_of_neg has, List.filter_eq_nil_iff.mpr none,
        List.filter_cons_of_pos (by simp [has]), List.nil_append, List.filter_eq_self.mpr]
      intro y member
      simp [none y member]

/-- What is not below a lookup begins with the versions that it may see, the newest first, and goes
on with greater user keys; nothing below it is to be seen. -/
theorem versions_first {target : Bytes} {sequence : UInt64} {front back : List Bytes}
    (spelled : InternalKey.decode target = .ok ⟨userKey, sequence, .merge⟩)
    (wellFormed : ∀ entry ∈ back, WellFormed entry)
    (split : KeyOrder.versioned.Splits target front back)
    (sorted : KeyOrder.versioned.Sorted back) :
    ∃ visible later, back = visible ++ later ∧ (∀ entry ∈ visible, VisibleAt userKey sequence entry) ∧
      visible.Pairwise Newer ∧ (∀ entry ∈ later, OfGreaterKey userKey entry) ∧
      ∀ entry ∈ front, ¬ VisibleAt userKey sequence entry := by
  let ofKey : Bytes → Bool := fun entry => decide (entryUserKey entry = .ok userKey)
  have ofKey_iff : ∀ {entry record}, Record.decode entry = .ok record →
      (ofKey entry = true ↔ record.userKey = userKey) := by
    intro entry record spelled
    simp [ofKey, Record.entryUserKey_eq spelled]
  -- Each entry at the back is of a greater user key or to be seen.
  have cases : ∀ entry ∈ back, ∃ record, Record.decode entry = .ok record ∧
      (compare record.userKey userKey = .gt ∨
        (record.userKey = userKey ∧ record.sequence ≤ sequence)) := by
    intro entry member
    obtain ⟨record, spelledEntry⟩ := wellFormed entry member
    obtain ⟨ordering, answer, notLess⟩ := split.notBelow entry member
    rw [Record.compareEntryKey_eq spelledEntry spelled] at answer
    obtain rfl := Except.ok.inj answer
    exact ⟨record, spelledEntry, (InternalKey.not_below_lookup ..).mp notLess⟩
  have closed : back.Pairwise fun a b => ofKey b = true → ofKey a = true := by
    refine sorted.imp_of_mem ?_
    intro a b inA inB below isB
    obtain ⟨x, spelledA, greater | ⟨same, _⟩⟩ := cases a inA
    · obtain ⟨y, spelledB, _⟩ := cases b inB
      have less := (Record.below_iff spelledA spelledB).mp below
      have users := (ofKey_iff spelledB).mp isB
      simp [InternalKey.compare, Record.internalKey, users, greater] at less
    · exact (ofKey_iff spelledA).mpr same
  refine ⟨back.filter ofKey, back.filter (!ofKey ·), (filter_append_filter closed).symm, ?_, ?_, ?_,
    ?_⟩
  · intro entry member
    obtain ⟨inBack, isOf⟩ := List.mem_filter.mp member
    obtain ⟨record, spelledEntry, greater | visible⟩ := cases entry inBack
    · rw [Std.compare_eq_iff_eq.mpr ((ofKey_iff spelledEntry).mp isOf)] at greater
      cases greater
    · exact ⟨record, spelledEntry, visible⟩
  · refine (sorted.sublist List.filter_sublist).imp_of_mem ?_
    intro a b inA inB below
    obtain ⟨x, spelledA, _⟩ := cases a (List.mem_of_mem_filter inA)
    obtain ⟨y, spelledB, _⟩ := cases b (List.mem_of_mem_filter inB)
    have users : x.userKey = y.userKey :=
      ((ofKey_iff spelledA).mp (List.mem_filter.mp inA).2).trans
        ((ofKey_iff spelledB).mp (List.mem_filter.mp inB).2).symm
    exact ⟨x, y, spelledA, spelledB,
      InternalKey.newer_of_below users ((Record.below_iff spelledA spelledB).mp below)⟩
  · intro entry member
    obtain ⟨inBack, isNot⟩ := List.mem_filter.mp member
    obtain ⟨record, spelledEntry, greater | ⟨same, _⟩⟩ := cases entry inBack
    · exact ⟨record, spelledEntry, greater⟩
    · simp [(ofKey_iff spelledEntry).mpr same] at isNot
  · rintro entry member ⟨record, spelledEntry, visible⟩
    have below := split.below entry member
    rw [Record.compareEntryKey_eq spelledEntry spelled] at below
    exact (InternalKey.not_below_lookup ..).mpr (.inr visible) (Except.ok.inj below)

/-- A lookup in an ordered table, after whatever was done to it, shows the accepted versions of its
user key that are visible to it, the newest first, and behind them only entries of greater user
keys. A visitor that never stops sees all of them, and one that stops when it is shown the `count`-th
sees the first `count`. -/
theorem get_shows_versions (fresh : Fresh .versioned table) (operations : List Operation)
    (wellFormed : ∀ entry ∈ accepted table operations, WellFormed entry)
    (distinct : (accepted table operations).Pairwise fun a b => entryKey a ≠ entryKey b)
    (places : Places table.placing userKey) {sequence : UInt64} (low : sequence ≤ maxSequence) :
    ∃ key, LookupKey.of userKey sequence = .ok key ∧ ∃ visible later,
      (∀ goesOn, (∀ shown, goesOn shown = true) →
        ((table.run operations).get key goesOn).2 = .ok (visible ++ later)) ∧
      (∀ goesOn count, 0 < count →
        (∀ n, 0 < n → n < count → goesOn ((visible ++ later).take n) = true) →
        (count ≤ (visible ++ later).length → goesOn ((visible ++ later).take count) = false) →
        ((table.run operations).get key goesOn).2 = .ok ((visible ++ later).take count)) ∧
      KeyOrder.versioned.Sorted (visible ++ later) ∧
      (∀ entry ∈ visible ++ later, entry ∈ accepted table operations) ∧
      (∀ entry, entry ∈ visible ↔
        entry ∈ accepted table operations ∧ VisibleAt userKey sequence entry) ∧
      visible.Pairwise Newer ∧ (∀ entry ∈ later, OfGreaterKey userKey entry) ∧
      ∀ entry ∈ visible ++ later, ∀ record, Record.decode entry = .ok record →
        record.userKey = userKey → record.sequence ≤ sequence := by
  obtain ⟨bytes, encoded⟩ := InternalKey.encode_ok
    (show (⟨userKey, sequence, .merge⟩ : InternalKey).sequence ≤ maxSequence from low)
  have spelled := InternalKey.decode_encode encoded
  obtain ⟨tagged, users, _⟩ := InternalKey.decode_ok spelled
  have readable : ∀ entry ∈ accepted table operations, HasKey HasTag entry :=
    fun entry member => (wellFormed entry member).hasTag
  have untied := KeyOrder.versioned_untied readable distinct
  have holds := run_holds fresh KeyOrder.versioned_totalOn operations readable fun _ => untied
  have looked : (⟨bytes⟩ : LookupKey).userKey = .ok userKey := by
    rw [LookupKey.userKey, userKeyOf_eq tagged, users]
  obtain ⟨front, back, split, sorted, shown, sub, all⟩ :=
    holds.get_shows KeyOrder.versioned_totalOn readable untied places looked tagged
  obtain ⟨visible, later, rfl, isVisible, newest, greater, notVisible⟩ :=
    versions_first spelled (fun entry member => wellFormed entry (sub entry member)) split sorted
  -- No entry of a greater user key is one of the user key.
  have apart : ∀ {entry record}, entry ∈ later → Record.decode entry = .ok record →
      record.userKey ≠ userKey := by
    rintro entry record member spelledEntry rfl
    obtain ⟨other, spelledOther, above⟩ := greater entry member
    obtain rfl := Except.ok.inj (spelledEntry.symm.trans spelledOther)
    rw [Std.compare_eq_iff_eq.mpr rfl] at above
    cases above
  refine ⟨⟨bytes⟩, by simp [LookupKey.of, encoded, bind, Except.bind, pure, Except.pure], visible,
    later, ?_, ?_, sorted, sub, ?_, newest, greater, ?_⟩
  · intro goesOn always
    rw [shown, seen_of_always always, List.nil_append]
  · intro goesOn count positive before stops
    rw [shown, seen_eq_take positive (by simpa using before) (by simpa using stops),
      List.nil_append]
  · intro entry
    constructor
    · intro member
      exact ⟨sub entry (List.mem_append_left _ member), isVisible entry member⟩
    · rintro ⟨member, record, spelledEntry, same, bound⟩
      have inParts := all entry member (same ▸ Record.entryUserKey_eq spelledEntry)
      rcases List.mem_append.mp inParts with inFront | inBack
      · exact absurd ⟨record, spelledEntry, same, bound⟩ (notVisible entry inFront)
      · rcases List.mem_append.mp inBack with inVisible | inLater
        · exact inVisible
        · exact absurd same (apart inLater spelledEntry)
  · intro entry member record spelledEntry same
    rcases List.mem_append.mp member with inVisible | inLater
    · obtain ⟨other, spelledOther, _, bound⟩ := isVisible entry inVisible
      obtain rfl := Except.ok.inj (spelledEntry.symm.trans spelledOther)
      exact bound
    · exact absurd same (apart inLater spelledEntry)

/-- Of two versions of a user key, a lookup as of the first one is shown that one. -/
theorem get_shows_older_version :
    let table := hashedChains {
      shelf := { order := .versioned, arena := { id := 0 } }
      index := { placement := { rule := .whole, hash := fun _ => 0 }, heads := .empty 1 } }
    let older : Bytes := [9, 0, 0, 0, 97, 1, 1, 0, 0, 0, 0, 0, 0, 0, 0, 0, 0]
    let newer : Bytes := [9, 0, 0, 0, 97, 1, 2, 0, 0, 0, 0, 0, 0, 0, 0, 0, 0]
    let operations : List Operation := [.insert ⟨0, ⟨0⟩, older⟩, .insert ⟨0, ⟨1⟩, newer⟩]
    accepted table operations = [older, newer] ∧
      ∃ key visible later, LookupKey.of [97] 1 = .ok key ∧
        ((table.run operations).get key fun _ => true).2 = .ok (visible ++ later) ∧
        older ∈ visible := by
  intro table older newer operations
  have both : accepted table operations = [older, newer] := by decide +kernel
  have fresh : Fresh .versioned table := @Fresh.hashedChains _ _ _ _ 1 0 rfl rfl
  have spelled : Record.decode older = .ok ⟨[97], 1, .put, []⟩ := by decide +kernel
  have wellFormed : ∀ entry ∈ accepted table operations, WellFormed entry := by
    rw [both]
    intro entry member
    rcases List.mem_pair.mp member with rfl | rfl
    · exact ⟨_, spelled⟩
    · exact ⟨⟨[97], 2, .put, []⟩, by decide +kernel⟩
  have distinct : (accepted table operations).Pairwise fun a b => entryKey a ≠ entryKey b := by
    rw [both]
    simp only [List.pairwise_pair]
    decide +kernel
  have places : Places table.placing [97] := by
    intro placement count same
    obtain ⟨rfl, rfl⟩ := Prod.mk.inj (Option.some.inj same)
    exact ⟨by decide, [97], rfl⟩
  obtain ⟨key, looked, visible, later, all, _, _, _, isVisible, _⟩ :=
    get_shows_versions fresh operations wellFormed distinct places
      (show (1 : UInt64) ≤ maxSequence by decide)
  refine ⟨both, key, visible, later, looked, all _ fun _ => rfl, (isVisible older).mpr ⟨?_, ?_⟩⟩
  · rw [both]
    exact List.mem_cons_self
  · exact ⟨_, spelled, rfl, by decide⟩

end MemTable

end WriteBuffer
