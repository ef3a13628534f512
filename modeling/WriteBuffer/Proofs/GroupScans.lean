import Mathlib
import WriteBuffer.Proofs.Cursor.Prefix
import WriteBuffer.Proofs.Runs
import WriteBuffer.Proofs.Table.Cursor

/-!
Scans within groups. A cursor that stays within groups of user keys shows, from a target on, exactly
the entries of the target's group, although entries of other groups may stand in the same bucket
(`MemTable.group_scan`).
-/
namespace WriteBuffer

namespace MemTable

variable {taken : List Bytes} {table : MemTable} {placement : Placement} {count : Nat}

theorem accepted_hasTag (operations : List Operation) (hashed : table.placing.isSome) :
    ∀ entry ∈ accepted table operations, HasKey HasTag entry := by
  have keyed : table.kind ≠ .skipList ∧ table.kind ≠ .vector := by
    cases table with
    | hashedSkipLists table | hashedChains table => exact ⟨nofun, nofun⟩
    | skipList table | vector table | cuckoo table => cases hashed
  intro entry member
  obtain ⟨userKey, cut⟩ := accepted_userKey operations keyed entry member
  obtain ⟨key, found, tagged, _⟩ := entryKey_of_entryUserKey cut
  exact ⟨key, found, tagged⟩

/-- What the cursors within groups of a table rely on: how its buckets are opened, and that the
cursors along each follow the entries of its user keys. -/
structure Grouping (table : MemTable) (placement : Placement) (count : Nat) (taken : List Bytes)
    (shelf : Shelf) (lists : Nat → Moves (Option NodeId))
    (openBucket : Bytes → Except Failure (Option BucketCursor)) (rows : Nat → List Row)
    (held : Nat → List Bytes) : Prop where
  moves : table.moves = bucketMoves shelf placement.rule lists openBucket
  opened : table.openCursor .groups = (table, .ok (.group {}))
  follows : ∀ bucket, (lists bucket).Follows .versioned (held bucket) (nodeAt (rows bucket))
  sorted : ∀ bucket, KeyOrder.versioned.Sorted (held bucket)
  mem_iff : ∀ {entry}, entry ∈ taken ↔ ∃ bucket, entry ∈ held bucket
  placed : ∀ bucket, ∀ entry ∈ held bucket, ∃ userKey, entryUserKey entry = .ok userKey ∧
    placement.bucketOf count userKey = .ok bucket
  filled : ∀ {userKey bucket}, placement.bucketOf count userKey = .ok bucket →
    openBucket userKey = .ok (some { bucket }) ∨ (openBucket userKey = .ok none ∧ held bucket = [])

theorem open_cases {β : Type} {shelf : Shelf} {slots : Sparse β} {linked : Nat → List Row → Prop}
    {rows : Nat → List Row} {held : Nat → List Bytes} {bucket : Nat}
    (arranged : Arranged shelf placement slots linked rows held taken) :
    ((slots.get? bucket).map fun _ => ({ bucket } : BucketCursor)) = some { bucket } ∨
      ((slots.get? bucket).map fun _ => ({ bucket } : BucketCursor)) = none ∧ held bucket = [] := by
  cases found : slots.get? bucket with
  | some content => exact .inl rfl
  | none => exact .inr ⟨rfl, arranged.vacant bucket found⟩

theorem Holds.grouping (holds : table.Holds .versioned (some (placement, count)) taken)
    (readable : ∀ entry ∈ taken, HasKey HasTag entry) :
    ∃ shelf lists openBucket rows held,
      Grouping table placement count taken shelf lists openBucket rows held := by
  obtain ⟨ordered, placed, index⟩ := holds
  cases table with
  | cuckoo table => exact index.elim
  | skipList table | vector table => cases placed
  | hashedSkipLists table =>
    obtain ⟨rfl, rfl⟩ := Prod.mk.inj (Option.some.inj placed)
    obtain ⟨rows, held, arranges⟩ := index
    have total : table.shelf.order.TotalOn HasTag := by
      rw [show table.shelf.order = .versioned from ordered]
      exact KeyOrder.versioned_totalOn
    refine ⟨table.shelf, HashedSkipTable.listMoves table, HashedSkipTable.bucketCursor table, rows,
      held, rfl, rfl, ?_, ?_, arranges.1.mem_iff, arranges.1.placed, ?_⟩
    · intro bucket
      rw [← show table.shelf.order = .versioned from ordered]
      exact HashedSkipTable.listMoves_follows arranges total readable bucket
    · intro bucket
      rw [← show table.shelf.order = .versioned from ordered]
      exact arranges.1.sorted bucket
    · intro userKey bucket found
      simp only [HashedSkipTable.bucketCursor, HashedSkipIndex.bucketOf, found, bind, Except.bind,
        pure, Except.pure, Except.ok.injEq]
      exact open_cases arranges.1
  | hashedChains table =>
    obtain ⟨rfl, rfl⟩ := Prod.mk.inj (Option.some.inj placed)
    obtain ⟨rows, held, arranges⟩ := index
    refine ⟨table.shelf, HashedChainTable.listMoves table, HashedChainTable.bucketCursor table, rows,
      held, rfl, rfl, ?_, ?_, arranges.1.mem_iff, arranges.1.placed, ?_⟩
    · intro bucket
      rw [← show table.shelf.order = .versioned from ordered]
      exact HashedChainTable.listMoves_follows arranges bucket
    · intro bucket
      rw [← show table.shelf.order = .versioned from ordered]
      exact arranges.1.sorted bucket
    · intro userKey bucket found
      simp only [HashedChainTable.bucketCursor, HashedChainIndex.bucketOf, found, bind, Except.bind,
        pure, Except.pure, Except.ok.injEq]
      exact open_cases arranges.1

/-- An entry whose user key is grouped with that of a target. -/
def SameGroup (rule : PrefixRule) (target entry : Bytes) : Prop :=
  ∃ group, (userKeyOf target >>= rule.groupOf) = .ok group ∧ groupOfEntry rule entry = .ok group

/-- An entry that is at or above a target. -/
def NotBelow (target entry : Bytes) : Prop :=
  ∃ ordering, KeyOrder.versioned.compareEntryKey entry target = .ok ordering ∧ ordering ≠ .lt

/-- From a cursor that sought a target, a walk forward shows the entries of the target's group that
are not below it, in order. From wherever steps in both directions lead, a walk back shows the entry
there and those of the group below it, in the opposite order. Both walks end at no entry. -/
structure ShowsGroup (moves : Moves TableCursor) (stored : List Bytes) (rule : PrefixRule)
    (target : Bytes) (start : TableCursor) (shown : List Bytes) : Prop where
  forward : ∃ stop, moves.walkForward start = (stop, .ok shown) ∧ moves.valid stop = false
  sorted : KeyOrder.versioned.Sorted shown
  exactly : ∀ entry, entry ∈ shown ↔
    entry ∈ stored ∧ SameGroup rule target entry ∧ NotBelow target entry
  backward : ∀ steps, (∀ step ∈ steps, step = Motion.next ∨ step = .prev) →
    moves.valid (moves.travel steps start) = true →
      ∃ entry below stop, moves.entry (moves.travel steps start) = .ok entry ∧ entry ∈ stored ∧
        SameGroup rule target entry ∧
        moves.walkBackward (moves.travel steps start) = (stop, .ok (entry :: below)) ∧
        moves.valid stop = false ∧ KeyOrder.versioned.Sorted below.reverse ∧
        ∀ other, other ∈ below ↔ other ∈ stored ∧ SameGroup rule target other ∧
          KeyOrder.versioned.Below other entry

/-- Where a cursor within a group stands in the block of the group in its bucket. -/
def groupPlace (rows : Nat → List Row) (group : Bytes) (bucket : Nat) (before : List Bytes)
    (at? : Option Nat) : TableCursor :=
  .group (GroupCursor.within group before (fun at? => ⟨bucket, nodeAt (rows bucket) at?⟩) at?)

namespace Grouping

variable {shelf : Shelf} {lists : Nat → Moves (Option NodeId)}
  {openBucket : Bytes → Except Failure (Option BucketCursor)} {rows : Nat → List Row}
  {held : Nat → List Bytes} {userKey group entry target : Bytes} {bucket : Nat}
  {before block after front back : List Bytes}
  (grouping : Grouping table placement count taken shelf lists openBucket rows held)
include grouping

theorem mem_bucket (grouped : placement.rule.groupOf userKey = .ok group)
    (place : placement.bucketOf count userKey = .ok bucket) :
    entry ∈ held bucket ∧ groupOfEntry placement.rule entry = .ok group ↔
      entry ∈ taken ∧ groupOfEntry placement.rule entry = .ok group := by
  refine and_congr_left fun sameGroup => ⟨fun member => grouping.mem_iff.mpr ⟨bucket, member⟩, ?_⟩
  intro member
  obtain ⟨other, inOther⟩ := grouping.mem_iff.mp member
  obtain ⟨user, cut, placed⟩ := grouping.placed other entry inOther
  have groupedUser : placement.rule.groupOf user = .ok group := by
    simpa [groupOfEntry, cut, bind, Except.bind] using sameGroup
  have sameBucket : placement.bucketOf count user = placement.bucketOf count userKey := by
    simp only [Placement.bucketOf, grouped, groupedUser]
  rw [sameBucket, place] at placed
  cases placed
  exact inOther

theorem steps (blocked : GroupCursor.Block placement.rule group (held bucket) before block after) :
    table.moves.Steps block (groupPlace rows group bucket before) := by
  have follows := (grouping.follows bucket).carried (BucketCursor.carries lists bucket)
  rw [grouping.moves]
  exact (blocked.steps follows.toSteps openBucket).carried (TableCursor.carries_group ..)

/-- Seeking lands on the first entry of the block that is not below the target, wherever the cursor
was. -/
theorem seek_eq (blocked : GroupCursor.Block placement.rule group (held bucket) before block after)
    (monotone : placement.rule.Monotone) (readable : ∀ entry ∈ held bucket, HasKey HasTag entry)
    (tagged : HasTag target) (grouped : placement.rule.groupOf (userPart target) = .ok group)
    (place : placement.bucketOf count (userPart target) = .ok bucket)
    (parts : held bucket = front ++ back) (split : KeyOrder.versioned.Splits target front back)
    (cursor : GroupCursor BucketCursor) :
    table.moves.seek target (.group cursor)
      = .ok (groupPlace rows group bucket before (inside block (front.length - before.length))) := by
  have follows := (grouping.follows bucket).carried (BucketCursor.carries lists bucket)
  rw [grouping.moves]
  refine ((TableCursor.carries_group ..).seek target cursor).trans ?_
  rcases grouping.filled place with opened | ⟨closed, empty⟩
  · rw [blocked.seek_eq monotone follows readable (grouping.sorted bucket) parts split tagged grouped
      opened]
    rfl
  · have nothing := blocked.parts
    rw [empty] at nothing
    obtain ⟨_, rest⟩ := List.append_eq_nil_iff.mp nothing.symm
    obtain ⟨rfl, _⟩ := List.append_eq_nil_iff.mp rest
    simp only [GroupCursor.moves, userKeyOf_eq tagged, bind, Except.bind, grouped, closed, pure,
      Except.pure, Except.map]
    rfl

/-- Steps in both directions do not leave the block, except to no entry. -/
theorem travel (blocked : GroupCursor.Block placement.rule group (held bucket) before block after)
    {motions : List Motion} (plain : ∀ motion ∈ motions, motion = .next ∨ motion = .prev)
    (start : Nat) :
    ∃ to?, (∀ index ∈ to?, index < block.length) ∧
      table.moves.travel motions (groupPlace rows group bucket before (inside block start))
        = groupPlace rows group bucket before to? := by
  have follows := (grouping.follows bucket).carried (BucketCursor.carries lists bucket)
  have within : ∀ index ∈ inside block start, index < block.length := by
    intro index found
    simp only [inside] at found
    split at found
    · next low => exact Option.some.inj found ▸ low
    · cases found
  obtain ⟨to?, low, moved⟩ := blocked.travel follows.toSteps openBucket plain _ within
  rw [grouping.moves]
  exact ⟨to?, low, ((TableCursor.carries_group ..).travel motions _).trans
    (congrArg TableCursor.group moved)⟩

/-- Wherever a cursor within groups was, it shows the group of the target sought. -/
theorem showsGroup (monotone : placement.rule.Monotone) (positive : 0 < count)
    (readable : ∀ entry ∈ taken, HasKey HasTag entry) (tagged : HasTag target) :
    ∃ start shown, (∀ cursor, table.moves.seek target (.group cursor) = .ok start) ∧
      ShowsGroup table.moves taken placement.rule target start shown := by
  obtain ⟨group, grouped⟩ := monotone.groups (userPart target)
  obtain ⟨bucket, place⟩ : ∃ bucket, placement.bucketOf count (userPart target) = .ok bucket := by
    simp [Placement.bucketOf, grouped, Nat.ne_of_gt positive, bind, Except.bind, pure, Except.pure]
  have readableHeld : ∀ entry ∈ held bucket, HasKey HasTag entry := fun entry member =>
    readable entry (grouping.mem_iff.mpr ⟨bucket, member⟩)
  have sorted := grouping.sorted bucket
  obtain ⟨before, block, after, blocked⟩ :=
    GroupCursor.Block.of_sorted monotone group readableHeld sorted
  obtain ⟨front, back, parts, split⟩ :=
    KeyOrder.versioned_totalOn.splits tagged readableHeld sorted
  have steps := grouping.steps blocked
  have sortedBlock : KeyOrder.versioned.Sorted block := by
    refine sorted.sublist ?_
    rw [blocked.parts]
    exact (List.sublist_append_left _ _).trans (List.sublist_append_right _ _)
  have sameGroup : ∀ entry, SameGroup placement.rule target entry ↔
      groupOfEntry placement.rule entry = .ok group := by
    intro entry
    simp [SameGroup, userKeyOf_eq tagged, bind, Except.bind, grouped]
  have notBelow : ∀ entry ∈ taken, (NotBelow target entry ↔
      KeyOrder.versioned.compareEntryKey entry target ≠ .ok .lt) := by
    intro entry member
    obtain ⟨key, cut, taggedKey⟩ := readable entry member
    simp [NotBelow, KeyOrder.compareEntryKey_eq _ cut, KeyOrder.versioned_eq taggedKey tagged]
  refine ⟨_, block.drop (front.length - before.length),
    grouping.seek_eq blocked monotone readableHeld tagged grouped place parts split,
    ⟨_, steps.walkForward _, steps.invalid⟩, sortedBlock.sublist (List.drop_sublist _ _), ?_, ?_⟩
  · intro entry
    rw [blocked.mem_sought parts split, sameGroup, ← and_assoc,
      grouping.mem_bucket grouped place, and_assoc]
    refine and_congr_right fun member => and_congr_right fun _ => (notBelow entry member).symm
  · intro motions plain valid
    obtain ⟨to?, low, moved⟩ :=
      grouping.travel blocked plain (front.length - before.length)
    rw [moved] at valid ⊢
    cases to? with
    | none =>
      rw [steps.invalid] at valid
      cases valid
    | some index =>
      have inBlock := low index rfl
      have isOf := blocked.inside _ (List.getElem_mem inBlock)
      have inBucket : block[index] ∈ held bucket := by
        rw [blocked.parts]
        simp
      have member := (grouping.mem_bucket grouped place).mp ⟨inBucket, isOf⟩
      refine ⟨block[index], (block.take index).reverse, _,
        steps.entry (List.getElem?_eq_getElem inBlock), member.1, (sameGroup _).mpr isOf, ?_,
        steps.invalid, ?_, ?_⟩
      · rw [steps.walkBackward inBlock, List.take_succ_eq_append_getElem inBlock,
          List.reverse_append]
        rfl
      · rw [List.reverse_reverse]
        exact sortedBlock.sublist (List.take_sublist _ _)
      · intro other
        rw [List.mem_reverse, blocked.mem_before readableHeld sorted inBlock, sameGroup, ← and_assoc,
          grouping.mem_bucket grouped place, and_assoc]

end Grouping

namespace ShowsGroup

variable {moves others : Moves TableCursor} {stored : List Bytes} {rule : PrefixRule}
  {target : Bytes} {start origin : TableCursor} {shown seen : List Bytes}

/-- Two cursors that show the group of one target among the same entries show the same. -/
theorem agrees (showsFirst : ShowsGroup moves stored rule target start shown) {same : List Bytes}
    (showsSecond : ShowsGroup others same rule target origin seen)
    (readable : ∀ entry ∈ stored, HasKey HasTag entry)
    (members : ∀ entry, entry ∈ same ↔ entry ∈ stored) :
    (others.walkForward origin).2 = (moves.walkForward start).2 ∧
      ∀ steps back, (∀ step ∈ steps, step = Motion.next ∨ step = .prev) →
        (∀ step ∈ back, step = Motion.next ∨ step = .prev) →
        moves.valid (moves.travel steps start) = true →
        others.valid (others.travel back origin) = true →
        moves.entry (moves.travel steps start) = others.entry (others.travel back origin) →
        (others.walkBackward (others.travel back origin)).2
          = (moves.walkBackward (moves.travel steps start)).2 := by
  have total := KeyOrder.versioned_totalOn
  constructor
  · obtain ⟨_, forward, _⟩ := showsFirst.forward
    obtain ⟨_, forwardOther, _⟩ := showsSecond.forward
    have equal : seen = shown := by
      refine total.sorted_ext ?_ showsSecond.sorted showsFirst.sorted ?_
      · intro entry member
        exact readable entry ((members entry).mp ((showsSecond.exactly entry).mp member).1)
      · intro entry
        rw [showsSecond.exactly, showsFirst.exactly, members]
    rw [forward, forwardOther, equal]
  · intro steps back plainSteps plainBack valid validOther atSame
    obtain ⟨entry, below, _, atEntry, _, _, walked, _, sorted, exactly⟩ :=
      showsFirst.backward steps plainSteps valid
    obtain ⟨found, under, _, atFound, _, _, walkedOther, _, sortedOther, exactlyOther⟩ :=
      showsSecond.backward back plainBack validOther
    rw [atEntry, atFound] at atSame
    obtain rfl := Except.ok.inj atSame
    have equal : under.reverse = below.reverse := by
      refine total.sorted_ext ?_ sortedOther sorted ?_
      · intro other member
        exact readable other ((members other).mp
          ((exactlyOther other).mp (List.mem_reverse.mp member)).1)
      · intro other
        rw [List.mem_reverse, List.mem_reverse, exactlyOther, exactly, members]
    rw [walked, walkedOther, List.reverse_injective equal]

end ShowsGroup

/-- After a run of a table with buckets, cursors within groups show the group of the target sought,
wherever they were. -/
theorem run_showsGroup (fresh : Fresh .versioned table)
    (placed : table.placing = some (placement, count)) (builtIn : placement.rule.BuiltIn)
    (positive : 0 < count) (operations : List Operation) {target : Bytes} (tagged : HasTag target) :
    (table.run operations).openCursor .groups = (table.run operations, .ok (.group {})) ∧
      (∀ motions, ∃ cursor,
        (table.run operations).moves.travel motions (.group {}) = .group cursor) ∧
      ∃ start shown,
        (∀ cursor, (table.run operations).moves.seek target (.group cursor) = .ok start) ∧
        ShowsGroup (table.run operations).moves (accepted table operations) placement.rule target
          start shown := by
  have hashed : table.placing.isSome := by
    rw [placed]
    rfl
  have readable := accepted_hasTag operations hashed
  have holds := run_holds fresh KeyOrder.versioned_totalOn operations readable (by
    intro isVector
    cases table <;> simp_all [MemTable.kind, MemTable.placing])
  rw [placed] at holds
  obtain ⟨shelf, lists, openBucket, rows, held, grouping⟩ := holds.grouping readable
  refine ⟨grouping.opened, ?_, grouping.showsGroup builtIn.monotone positive readable tagged⟩
  intro motions
  rw [grouping.moves]
  exact ⟨_, (TableCursor.carries_group _ _ _).travel motions {}⟩

/-- A cursor within groups of a table with buckets, wherever it was moved before, seeks like a new
one and then shows exactly the entries of the target's group; and what it shows depends neither on
the buckets nor on the hash. -/
theorem group_scan (fresh : Fresh .versioned table)
    (placed : table.placing = some (placement, count)) (builtIn : placement.rule.BuiltIn)
    (positive : 0 < count) (operations : List Operation) {target : Bytes} (tagged : HasTag target)
    (motions : List Motion) :
    let now := table.run operations
    now.openCursor .groups = (now, .ok (.group {})) ∧
    ∃ start shown,
      now.moves.seek target (now.moves.travel motions (.group {})) = .ok start ∧
      now.moves.seek target (.group {}) = .ok start ∧
      ShowsGroup now.moves (accepted table operations) placement.rule target start shown ∧
      ∀ other otherPlacement otherCount others, Fresh .versioned other →
        other.placing = some (otherPlacement, otherCount) → otherPlacement.rule = placement.rule →
        0 < otherCount →
        (∀ entry, entry ∈ accepted other others ↔ entry ∈ accepted table operations) →
        ∃ origin, (other.run others).moves.seek target (.group {}) = .ok origin ∧
          ((other.run others).moves.walkForward origin).2 = (now.moves.walkForward start).2 ∧
          ∀ steps back, (∀ step ∈ steps, step = Motion.next ∨ step = .prev) →
            (∀ step ∈ back, step = Motion.next ∨ step = .prev) →
            now.moves.valid (now.moves.travel steps start) = true →
            (other.run others).moves.valid ((other.run others).moves.travel back origin) = true →
            now.moves.entry (now.moves.travel steps start)
              = (other.run others).moves.entry ((other.run others).moves.travel back origin) →
            ((other.run others).moves.walkBackward
                ((other.run others).moves.travel back origin)).2
              = (now.moves.walkBackward (now.moves.travel steps start)).2 := by
  intro now
  obtain ⟨opened, travelled, start, shown, sought, showsGroup⟩ :=
    run_showsGroup fresh placed builtIn positive operations tagged
  refine ⟨opened, start, shown, ?_, sought {}, showsGroup, ?_⟩
  · obtain ⟨cursor, reached⟩ := travelled motions
    rw [reached]
    exact sought cursor
  · intro other otherPlacement otherCount others freshOther placedOther sameRule positiveOther members
    obtain ⟨_, _, origin, found, soughtOther, showsOther⟩ :=
      run_showsGroup freshOther placedOther (sameRule ▸ builtIn) positiveOther others tagged
    rw [sameRule] at showsOther
    have readable := accepted_hasTag operations (by rw [placed]; rfl : table.placing.isSome)
    exact ⟨origin, soughtOther {}, showsGroup.agrees showsOther readable members⟩

/-- Of three entries in one bucket, a scan from a target shows the one of its group. -/
theorem group_scan_one_of_three :
    let table := hashedChains {
      shelf := { order := .versioned, arena := { id := 0 } }
      index := { placement := { rule := .fixed 1, hash := fun _ => 0 }, heads := .empty 1 } }
    let a : Bytes := [9, 0, 0, 0, 97, 1, 1, 0, 0, 0, 0, 0, 0, 0, 0, 0, 0]
    let b : Bytes := [9, 0, 0, 0, 98, 1, 1, 0, 0, 0, 0, 0, 0, 0, 0, 0, 0]
    let c : Bytes := [9, 0, 0, 0, 99, 1, 1, 0, 0, 0, 0, 0, 0, 0, 0, 0, 0]
    let operations : List Operation :=
      [.insert ⟨0, ⟨0⟩, c⟩, .insert ⟨0, ⟨1⟩, a⟩, .insert ⟨0, ⟨2⟩, b⟩]
    let target : Bytes := [98, 1, 2, 0, 0, 0, 0, 0, 0]
    accepted table operations = [c, a, b] ∧
      ∃ start shown,
        (table.run operations).moves.seek target
          ((table.run operations).moves.travel [.first, .next] (.group {})) = .ok start ∧
        ShowsGroup (table.run operations).moves [c, a, b] (.fixed 1) target start shown ∧
        b ∈ shown ∧ a ∉ shown ∧ c ∉ shown := by
  intro table a b c operations target
  have all : accepted table operations = [c, a, b] := by decide +kernel
  have fresh : Fresh .versioned table := @Fresh.hashedChains _ _ _ _ 1 0 rfl rfl
  have tagged : HasTag target := Nat.le_of_ble_eq_true rfl
  obtain ⟨_, start, shown, sought, _, shows, _⟩ :=
    group_scan fresh rfl (.fixed 1) (by decide) operations tagged [.first, .next]
  rw [all] at shows
  have ofTarget : (userKeyOf target >>= PrefixRule.groupOf (.fixed 1)) = .ok [98] := by
    decide +kernel
  refine ⟨all, start, shown, sought, shows, ?_, ?_, ?_⟩
  · refine (shows.exactly b).mpr ⟨by simp, ⟨[98], ofTarget, by decide +kernel⟩, .gt, ?_, by decide⟩
    decide +kernel
  · intro member
    obtain ⟨_, ⟨group, found, ofEntry⟩, _⟩ := (shows.exactly a).mp member
    have other : groupOfEntry (.fixed 1) a = .ok [97] := by decide +kernel
    cases ofTarget.symm.trans found
    cases other.symm.trans ofEntry
  · intro member
    obtain ⟨_, ⟨group, found, ofEntry⟩, _⟩ := (shows.exactly c).mp member
    have other : groupOfEntry (.fixed 1) c = .ok [99] := by decide +kernel
    cases ofTarget.symm.trans found
    cases other.symm.trans ofEntry

end MemTable

end WriteBuffer
