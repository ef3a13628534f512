import Mathlib
import WriteBuffer.Proofs.Adding
import WriteBuffer.Proofs.Cursor.Unfailing
import WriteBuffer.Proofs.Freezing
import WriteBuffer.Proofs.Merging
import WriteBuffer.Proofs.OpenCursors
import WriteBuffer.Proofs.Table.Stocked

/-!
Tables on which nothing goes wrong. A steady table (`MemTable.Steady`) has only entries whose keys can
be read, and finds a bucket or slots for every user key; every operation keeps it steady
(`MemTable.Steady.perform`). Its cursors (`MemTable.Live`) stay so while it changes
(`MemTable.Live.perform`), and none of them fails (`MemTable.Steady.unfailing`). Reads succeed
(`MemTable.Steady.contains_ok`, `MemTable.Steady.get_ok`, `MemTable.Steady.scan_ok`), and an insert is
refused for the reasons that are meant only (`MemTable.Steady.insert_refused`).
-/
namespace WriteBuffer

variable {order : KeyOrder}

namespace Shelf

variable {shelf : Shelf} {keys : Bytes → Prop} {runs : List (List Handle)} {handles : List Handle}

theorem exists_reads (readable : ∀ handle ∈ handles, shelf.Readable keys handle) :
    ∃ entries, shelf.Reads handles entries ∧ ∀ entry ∈ entries, HasKey keys entry := by
  induction handles with
  | nil => exact ⟨[], rfl, by simp⟩
  | cons handle rest ih =>
    obtain ⟨first, read, hasKey⟩ := readable handle List.mem_cons_self
    obtain ⟨entries, reads, hasKeys⟩ := ih fun other member =>
      readable other (List.mem_cons_of_mem _ member)
    exact ⟨first :: entries, by simp [Reads, read, show _ = _ from reads],
      List.forall_mem_cons.mpr ⟨hasKey, hasKeys⟩⟩

theorem Reads.repeats {entries : List Bytes} {entry : Bytes} (reads : shelf.Reads handles entries)
    (ties : ∃ other ∈ entries, shelf.order.Ties other entry) : shelf.Repeats entry := by
  obtain ⟨other, member, ties⟩ := ties
  obtain ⟨handle, _, read⟩ := reads.exists_handle member
  exact ⟨handle, other, read, ties⟩

theorem mergeRuns_ok (total : shelf.order.TotalOn keys)
    (readable : ∀ run ∈ runs, ∀ handle ∈ run, shelf.Readable keys handle) :
    ∃ merged, mergeRuns shelf.compareHandles runs = .ok merged ∧
      ∀ handle ∈ merged, shelf.Readable keys handle := by
  obtain ⟨lifted, rfl⟩ := exists_readable readable
  refine ⟨_, mergeRuns_eq (weighs total) lifted, ?_⟩
  intro handle member
  obtain ⟨held, _, rfl⟩ := List.mem_map.mp member
  exact held.2

end Shelf

theorem RunCursor.Live.of_readable {shelf : Shelf} {handles : List Handle}
    (readable : ∀ handle ∈ handles, shelf.Readable HasTag handle) :
    RunCursor.Live shelf { handles } := by
  obtain ⟨entries, reads, hasKeys⟩ := Shelf.exists_reads readable
  exact ⟨entries, entries.length, reads, hasKeys, by simp [inside]⟩

theorem Arranged.merges {β : Type} {shelf : Shelf} {placement : Placement} {slots : Sparse β}
    {linked : Nat → List Row → Prop} {rows : Nat → List Row} {held : Nat → List Bytes}
    {taken : List Bytes} {keys : Bytes → Prop}
    (arranged : Arranged shelf placement slots linked rows held taken)
    (total : shelf.order.TotalOn keys) (readable : ∀ entry ∈ taken, HasKey keys entry) :
    ∃ handles, mergeRuns shelf.compareHandles (slots.keys.map fun bucket => handlesOf (rows bucket))
      = .ok handles ∧ ∀ handle ∈ handles, shelf.Readable keys handle := by
  refine Shelf.mergeRuns_ok total fun run member => ?_
  obtain ⟨bucket, _, rfl⟩ := List.mem_map.mp member
  exact (arranged.reads bucket).readable fun entry inBucket =>
    readable entry (arranged.mem_iff.mpr ⟨bucket, inBucket⟩)

theorem HashedSkipTable.Alike.makesLists {a b : HashedSkipTable} (alike : a.Alike b)
    (makes : a.MakesLists) : b.MakesLists := by
  rw [MakesLists, alike.index]
  exact makes

namespace MemTable

variable {table : MemTable} {placing : Option (Placement × Nat)} {taken : List Bytes}

/-- A cursor is along the list of a bucket, at one of its rows or at none, and all entries of the
table have keys. -/
def OnList (table : MemTable) (order : KeyOrder) (cursor : BucketCursor) : Prop :=
  ∃ placing rows entries taken index,
    table.Lists order placing cursor.bucket rows entries taken ∧
    (∀ entry ∈ taken, HasKey HasTag entry) ∧ cursor.place = nodeAt rows (inside entries index)

/-- The cursors of a table with which nothing goes wrong. -/
def Live (table : MemTable) (order : KeyOrder) : TableCursor → Prop
  | .nothing => True
  | .run cursor => cursor.Live table.shelf
  | .list cursor => table.OnList order cursor
  | .group cursor => cursor.InnerIs (table.OnList order)

/-- A table on which nothing goes wrong: it has only entries with keys, and it finds a bucket or slots
for every user key and can make the list of every bucket. -/
inductive Steady (order : KeyOrder) : MemTable → Prop
  | linked {table : MemTable} {placing : Option (Placement × Nat)} {taken : List Bytes}
    (linked : table.kind ≠ .vector) (holds : table.Holds order placing taken)
    (readable : ∀ entry ∈ taken, HasKey HasTag entry) (lists : table.MakesLists)
    (places : ∀ userKey, Places placing userKey) : Steady order table
  | vector {table : VectorTable} (ordered : table.shelf.order = order)
    (orderly : table.Orderly HasTag) : Steady order (vector table)
  | cuckoo {table : CuckooTable} (ordered : table.shelf.order = order) (stocked : table.Stocked) :
    Steady order (cuckoo table)

theorem Steady.order_eq (steady : table.Steady order) : table.shelf.order = order := by
  cases steady with
  | linked _ holds => exact holds.order
  | vector ordered => exact ordered
  | cuckoo ordered => exact ordered

section Perform

variable (total : order.TotalOn HasTag) (operation : Operation)
  (hasKey : ∀ entry ∈ table.added operation, HasKey HasTag entry)
include total hasKey

/-- A cursor along a list stays along it. -/
theorem OnList.perform {cursor : BucketCursor} (onList : table.OnList order cursor) :
    (table.perform operation).OnList order cursor := by
  obtain ⟨placing, rows, entries, taken, index, lists, readable, place⟩ := onList
  have readableNow : ∀ entry ∈ taken ++ table.added operation, HasKey HasTag entry :=
    fun entry member => (List.mem_append.mp member).elim (readable entry) (hasKey entry)
  obtain ⟨grown, listed, sub, now⟩ := lists.perform total operation readableNow
  obtain ⟨reached, sameNode, _⟩ := lists.reads.stays now.reads sub
    (perform_extends table operation).keeps index
  exact ⟨placing, grown, listed, _, reached, now, readableNow, place.trans sameNode⟩

theorem Live.perform {cursor : TableCursor} (live : table.Live order cursor) :
    (table.perform operation).Live order cursor := by
  cases cursor with
  | nothing => trivial
  | run cursor =>
    obtain ⟨entries, index, reads, readable, position⟩ := live
    exact ⟨entries, index, reads.keeps (perform_extends table operation).keeps, readable, position⟩
  | list cursor => exact OnList.perform total operation hasKey live
  | group cursor => exact fun place inner => OnList.perform total operation hasKey (live place inner)

end Perform

/-- Any operation leaves a table able to make lists. -/
theorem MakesLists.perform (lists : table.MakesLists) (sound : table.Sound) (operation : Operation)
    (usable : ∀ draft, operation = .insert draft → draft.handle ≠ .nowhere) :
    (table.perform operation).MakesLists := by
  cases table with
  | skipList table | vector table | hashedChains table | cuckoo table =>
    rcases now : MemTable.perform _ operation <;>
      first | trivial | cases (congrArg kind now).symm.trans (kind_perform _ operation)
  | hashedSkipLists table =>
    cases operation with
    | insert draft =>
      rcases HashedSkipTable.insert_whole sound.vacant sound.index (usable draft rfl) with
        ⟨left, failure, failed, alike, _⟩ | ⟨now, done, _, _, makes⟩
      · rw [MemTable.perform, MemTable.insert, failed]
        exact alike.makesLists lists
      · rw [MemTable.perform, MemTable.insert, done]
        exact makes lists
    | get key goesOn =>
      simp only [MemTable.perform, MemTable.get]
      cases key.userKey <;> exact lists
    | allocate | contains | openCursor | close => exact lists

/-- Any operation that adds only entries with keys keeps a table steady. -/
theorem Steady.perform (steady : table.Steady order) (total : order.TotalOn HasTag)
    (sound : table.Sound) (operation : Operation)
    (usable : ∀ draft, operation = .insert draft → draft.handle ≠ .nowhere)
    (hasKey : ∀ entry ∈ table.added operation, HasKey HasTag entry) :
    (table.perform operation).Steady order := by
  cases steady with
  | linked linked holds readable lists places =>
    have readableNow : ∀ entry ∈ _ ++ table.added operation, HasKey HasTag entry :=
      fun entry member => (List.mem_append.mp member).elim (readable entry) (hasKey entry)
    exact .linked ((kind_perform table operation).trans_ne linked)
      (holds.perform total operation readableNow fun isVector => absurd isVector linked) readableNow
      (lists.perform sound operation usable) places
  | vector ordered orderly =>
    subst ordered
    obtain ⟨after, performed, sameOrder, still⟩ := orderly.perform total operation hasKey
    rw [performed]
    exact .vector sameOrder still
  | @cuckoo slots ordered stocked =>
    have kept : ∀ (shelf : Shelf) (gate : Gate) (log : List Event),
        shelf.order = slots.shelf.order → slots.shelf.arena.Keeps shelf.arena →
        Steady order (MemTable.cuckoo { slots with shelf, gate, log }) := fun shelf gate log same keeps =>
      .cuckoo (same.trans ordered) (stocked.keeps same keeps)
    cases operation with
    | insert draft =>
      refine .cuckoo ?_ (stocked.insert sound.vacant draft)
      exact (CuckooTable.insert_taking draft slots).extends.order.trans ordered
    | allocate size => exact kept _ _ _ rfl fun read => read
    | get key goesOn =>
      simp only [MemTable.perform, MemTable.get]
      cases key.userKey <;> exact .cuckoo ordered stocked
    | contains | openCursor => exact .cuckoo ordered stocked
    | close => exact kept _ _ _ rfl fun read => read

section Runs

variable (total : order.TotalOn HasTag) {operations : List Operation}
  (hasKey : ∀ entry ∈ accepted table operations, HasKey HasTag entry)
include total hasKey

theorem Live.run {cursor : TableCursor} (live : table.Live order cursor) :
    (table.run operations).Live order cursor := by
  induction operations generalizing table with
  | nil => exact live
  | cons operation rest ih =>
    rw [accepted] at hasKey
    exact ih (fun entry member => hasKey entry (List.mem_append_right _ member))
      (live.perform total operation fun entry member => hasKey entry (List.mem_append_left _ member))

/-- A run that adds only entries with keys keeps a table steady. -/
theorem Steady.run (steady : table.Steady order) (sound : table.Sound)
    (issued : ∀ draft, .insert draft ∈ operations → draft.Issued) :
    (table.run operations).Steady order := by
  induction operations generalizing table with
  | nil => exact steady
  | cons operation rest ih =>
    rw [accepted] at hasKey
    have issuedHere : ∀ draft, operation = .insert draft → draft.Issued := fun draft same =>
      issued draft (same ▸ List.mem_cons_self)
    refine ih (fun entry member => hasKey entry (List.mem_append_right _ member)) ?_
      (sound.perform operation issuedHere) fun draft member =>
        issued draft (List.mem_cons_of_mem _ member)
    exact steady.perform total sound operation (fun draft same => (issuedHere draft same).ne_nowhere)
      fun entry member => hasKey entry (List.mem_append_left _ member)

end Runs

section Cursors

theorem Holds.onList (holds : table.Holds order placing taken) (linked : table.kind ≠ .vector)
    (readable : ∀ entry ∈ taken, HasKey HasTag entry) (bucket : Nat) :
    table.OnList order { bucket } := by
  obtain ⟨rows, entries, lists⟩ := holds.lists linked bucket
  exact ⟨placing, rows, entries, taken, entries.length, lists, readable, by simp [inside, nodeAt]⟩

variable (steady : table.Steady order)
include steady

/-- The cursors of a steady table are along its buckets, each user key has a group, and the bucket of
each can be opened. -/
theorem Steady.moves_eq : ∃ rule lists openBucket,
    table.moves = bucketMoves table.shelf rule lists openBucket ∧
    (∀ userKey, ∃ group, rule.groupOf userKey = .ok group) ∧
    ∀ userKey, ∃ opened, openBucket userKey = .ok opened ∧ ∀ place ∈ opened, table.OnList order place := by
  have whole : ∀ userKey, ∃ group, PrefixRule.whole.groupOf userKey = .ok group :=
    fun userKey => ⟨userKey, rfl⟩
  cases steady with
  | vector | cuckoo => exact ⟨_, _, _, rfl, whole, fun _ => ⟨none, rfl, by simp⟩⟩
  | linked linked holds readable lists places =>
    have onList := holds.onList linked readable
    obtain ⟨_, rfl, index⟩ := holds
    cases table with
    | vector table => exact absurd rfl linked
    | cuckoo table => exact index.elim
    | skipList table => exact ⟨_, _, _, rfl, whole, fun _ => ⟨none, rfl, by simp⟩⟩
    | hashedSkipLists table =>
      refine ⟨_, _, _, rfl, fun userKey => (places userKey rfl).2, fun userKey => ?_⟩
      obtain ⟨bucket, place⟩ := Places.bucketOf_ok (places userKey)
      refine ⟨(table.index.buckets.get? bucket).map fun _ => { bucket }, ?_, ?_⟩
      · simp only [HashedSkipTable.bucketCursor, HashedSkipIndex.bucketOf, place]
        rfl
      · intro cursor member
        obtain ⟨_, _, rfl⟩ := Option.map_eq_some_iff.mp member
        exact onList bucket
    | hashedChains table =>
      refine ⟨_, _, _, rfl, fun userKey => (places userKey rfl).2, fun userKey => ?_⟩
      obtain ⟨bucket, place⟩ := Places.bucketOf_ok (places userKey)
      refine ⟨(table.index.heads.get? bucket).map fun _ => { bucket }, ?_, ?_⟩
      · simp only [HashedChainTable.bucketCursor, HashedChainIndex.bucketOf, place]
        rfl
      · intro cursor member
        obtain ⟨_, _, rfl⟩ := Option.map_eq_some_iff.mp member
        exact onList bucket

variable (total : order.TotalOn HasTag)
include total

omit steady in
/-- Cursors along lists are unfailing. -/
theorem OnList.unfailing :
    table.moves.Unfailing fun cursor => ∃ along, cursor = .list along ∧ table.OnList order along := by
  rintro _ ⟨⟨bucket, _⟩, rfl, placing, rows, entries, taken, index, lists, readable, rfl⟩
  have readableEntries : ∀ entry ∈ entries, HasKey HasTag entry := fun entry member =>
    readable entry (lists.mem_iff.mp member).1
  have unfailing := (lists.follows total readable).unfailing_sorted total readableEntries lists.sorted
  refine (unfailing _ ⟨index, rfl⟩).mono ?_
  rintro _ ⟨reached, rfl⟩
  exact ⟨_, rfl, placing, rows, entries, taken, reached, lists, readable, rfl⟩

/-- The cursors of a steady table are unfailing. -/
theorem Steady.unfailing : table.moves.Unfailing (table.Live order) := by
  obtain ⟨rule, lists, openBucket, same, groups, opens⟩ := steady.moves_eq
  have runs := RunCursor.unfailing (steady.order_eq ▸ total)
  have onLists : table.moves.Unfailing fun cursor =>
      ∃ along, cursor = .list along ∧ table.OnList order along := OnList.unfailing total
  rw [same] at onLists ⊢
  have along : (BucketCursor.moves lists).Unfailing (table.OnList order) := by
    have unwrapped := onLists.unwrapped (TableCursor.carries_list ..)
    refine fun cursor held => (unwrapped cursor ⟨cursor, rfl, held⟩).mono ?_
    rintro other ⟨_, same, held⟩
    exact TableCursor.list.inj same ▸ held
  have inGroups := GroupCursor.unfailing along groups opens
  intro cursor live
  cases cursor with
  | nothing =>
    exact (Moves.ofNothing_unfailing () trivial).carried (TableCursor.carries_nothing ..)
      fun _ _ => trivial
  | run cursor =>
    exact (runs cursor live).carried (TableCursor.carries_run ..) fun _ held => held
  | list cursor =>
    exact (along cursor live).carried (TableCursor.carries_list ..) fun _ held => held
  | group cursor =>
    exact (inGroups cursor live).carried (TableCursor.carries_group ..) fun _ held => held

/-- A cursor can be opened over any range of an ordered table. -/
theorem Steady.openCursor_ok (ordered : table.kind ≠ .cuckoo) (range : Range) :
    ∃ cursor, (table.openCursor range).2 = .ok cursor ∧
      (table.openCursor range).1.Live order cursor := by
  have group : GroupCursor.InnerIs (table.OnList order) {} := fun place member => by cases member
  cases steady with
  | cuckoo => exact absurd rfl ordered
  | @vector table sameOrder orderly =>
    obtain ⟨perm, _, sorted⟩ := VectorTable.sortedHandles_ok orderly.readable (sameOrder ▸ total)
    refine ⟨.run { handles := table.sortedHandles.1.index.handles }, ?_, .of_readable fun handle member => ?_⟩
    · simp only [MemTable.openCursor, VectorTable.cursor, sorted, Except.map]
    · have readable := orderly.readable handle (perm.mem_iff.mp member)
      rwa [← (VectorTable.sortedHandles_same table).1] at readable
  | linked linked holds readable lists places =>
    have onList := holds.onList linked readable
    obtain ⟨rfl, rfl, index⟩ := holds
    cases table with
    | vector table => exact absurd rfl linked
    | cuckoo table => exact index.elim
    | skipList table => exact ⟨_, rfl, onList 0⟩
    | hashedSkipLists table =>
      obtain ⟨rows, held, arranges⟩ := index
      cases range with
      | groups => exact ⟨_, rfl, group⟩
      | all =>
        obtain ⟨handles, merged, named⟩ := arranges.1.merges total readable
        refine ⟨.run { handles }, ?_, .of_readable named⟩
        simp only [MemTable.openCursor, HashedSkipTable.sortedHandles_eq arranges, merged]
        rfl
      | bucketOf userKey =>
        obtain ⟨bucket, place⟩ := Places.bucketOf_ok (places userKey)
        simp only [MemTable.openCursor, HashedSkipTable.bucketCursor, HashedSkipIndex.bucketOf, place,
          bind, Except.bind, pure, Except.pure]
        cases table.index.buckets.get? bucket with
        | none => exact ⟨_, rfl, trivial⟩
        | some list => exact ⟨_, rfl, onList bucket⟩
    | hashedChains table =>
      obtain ⟨rows, held, arranges⟩ := index
      cases range with
      | groups => exact ⟨_, rfl, group⟩
      | all =>
        obtain ⟨handles, merged, named⟩ := arranges.1.merges total readable
        refine ⟨.run { handles }, ?_, .of_readable named⟩
        simp only [MemTable.openCursor, HashedChainTable.sortedHandles_eq arranges, merged]
        rfl
      | bucketOf userKey =>
        obtain ⟨bucket, place⟩ := Places.bucketOf_ok (places userKey)
        simp only [MemTable.openCursor, HashedChainTable.bucketCursor, HashedChainIndex.bucketOf,
          place, bind, Except.bind, pure, Except.pure]
        cases table.index.heads.get? bucket with
        | none => exact ⟨_, rfl, trivial⟩
        | some head => exact ⟨_, rfl, onList bucket⟩

theorem Steady.openCursor (sound : table.Sound) (range : Range) :
    (table.openCursor range).1.Steady order :=
  steady.perform total sound (.openCursor range) (fun _ same => by cases same)
    fun _ member => by cases member

/-- A table can be walked through from either end. -/
theorem Steady.scan_ok (sound : table.Sound) (ordered : table.kind ≠ .cuckoo) :
    (∃ entries, table.scan.2 = .ok entries) ∧ ∃ entries, table.scanBackward.2 = .ok entries := by
  obtain ⟨cursor, opened, live⟩ := steady.openCursor_ok total ordered .all
  have unfailing := (steady.openCursor total sound .all).unfailing total
  rw [moves_openCursor] at unfailing
  rw [scan_eq, scanBackward_eq, opened]
  obtain ⟨front, first, atFront⟩ :=
    (unfailing cursor live).moved .first trivial (.inr trivial)
  obtain ⟨back, last, atBack⟩ := (unfailing cursor live).moved .last trivial (.inr trivial)
  obtain ⟨_, entries, walked, _⟩ := unfailing.walkForward atFront
  obtain ⟨_, reverse, walkedBack, _⟩ := unfailing.walkBackward atBack
  simp only [show table.moves.first cursor = .ok front from first,
    show table.moves.last cursor = .ok back from last, bind, Except.bind, walked, walkedBack]
  exact ⟨⟨_, rfl⟩, _, rfl⟩

/-- Every visitor is shown something. -/
theorem Steady.get_ok (sound : table.Sound) {key : LookupKey} (tagged : HasTag key.internalKey)
    (goesOn : List Bytes → Bool) : ∃ shown, (table.get key goesOn).2 = .ok shown := by
  have user : key.userKey = .ok (userPart key.internalKey) := userKeyOf_eq tagged
  by_cases isCuckoo : table.kind = .cuckoo
  · cases steady with
    | linked linked holds =>
      obtain ⟨_, _, index⟩ := holds
      cases table <;> first | exact index.elim | cases isCuckoo
    | vector => cases isCuckoo
    | cuckoo sameOrder stocked =>
      simp only [MemTable.get, user]
      exact stocked.get_ok (sameOrder ▸ total) _ tagged goesOn
  · obtain ⟨cursor, opened, live⟩ := steady.openCursor_ok total isCuckoo
      (.bucketOf (userPart key.internalKey))
    have unfailing := (steady.openCursor total sound (.bucketOf (userPart key.internalKey))).unfailing
      total
    rw [moves_openCursor] at unfailing
    obtain ⟨shown, visited⟩ := unfailing.visitFrom live tagged goesOn
    exact ⟨shown, by simp only [MemTable.get_eq isCuckoo, user, opened, bind, Except.bind, visited]⟩

theorem Steady.lookup_ok (sound : table.Sound) (userKey : Bytes) {sequence : UInt64}
    (low : sequence ≤ maxSequence) (goesOn : List Bytes → Bool) : ∃ key shown,
      LookupKey.of userKey sequence = .ok key ∧ (table.get key goesOn).2 = .ok shown := by
  obtain ⟨key, looked, _, decoded⟩ := @LookupKey.of_ok userKey sequence low
  obtain ⟨shown, found⟩ := steady.get_ok total sound (InternalKey.decode_ok decoded).1 goesOn
  exact ⟨key, shown, looked, found⟩

theorem Steady.close_ok : table.close.2 = .ok () := by
  cases steady with
  | cuckoo => rfl
  | linked linked holds =>
    cases table with
    | vector table => exact absurd rfl linked
    | skipList | hashedSkipLists | hashedChains | cuckoo => rfl
  | @vector table sameOrder orderly =>
    obtain ⟨_, _, sorted⟩ := @VectorTable.sortedHandles_ok HasTag (Table.close .vector table)
      orderly.readable (sameOrder ▸ total)
    simp only [MemTable.close, VectorTable.close, Outcome.onState]
    split
    · rfl
    · rw [sorted]
      rfl

/-- Every search for a key gives an answer. -/
theorem Steady.contains_ok {internalKey : Bytes} (tagged : HasTag internalKey) :
    ∃ answer, (table.contains internalKey).2 = .ok answer := by
  cases steady with
  | cuckoo sameOrder stocked => exact stocked.contains_ok (sameOrder ▸ total) tagged
  | @vector table sameOrder orderly =>
    subst sameOrder
    obtain ⟨perm, _, sorted⟩ := VectorTable.sortedHandles_ok orderly.readable total
    obtain ⟨shelf, _⟩ := VectorTable.sortedHandles_same table
    obtain ⟨found, searched⟩ : ∃ found, binarySearch (table.shelf.compareKey · internalKey)
        table.sortedHandles.1.index.handles = .ok found := by
      refine binarySearch_ok fun handle member => ?_
      obtain ⟨entry, read, key, cut, keyed⟩ := orderly.readable handle (perm.mem_iff.mp member)
      rw [Shelf.compareKey_eq read, KeyOrder.compareEntryKey_eq _ cut]
      exact total.answers keyed tagged
    simp only [MemTable.contains, VectorTable.contains, Outcome.onState, sorted, shelf, searched, bind,
      Except.bind]
    exact ⟨_, rfl⟩
  | linked linked holds readable lists places =>
    obtain ⟨rfl, rfl, index⟩ := holds
    have user : userKeyOf internalKey = .ok (userPart internalKey) := userKeyOf_eq tagged
    cases table with
    | vector table => exact absurd rfl linked
    | cuckoo table => exact index.elim
    | skipList table =>
      exact (index.contains_eq total readable tagged).imp fun _ found => found.1
    | hashedSkipLists table =>
      obtain ⟨rows, held, arranges⟩ := index
      obtain ⟨bucket, place⟩ := Places.bucketOf_ok (places (userPart internalKey))
      exact (HashedSkipTable.contains_eq arranges total readable tagged user place).imp
        fun _ found => found.1
    | hashedChains table =>
      obtain ⟨rows, held, arranges⟩ := index
      obtain ⟨bucket, place⟩ := Places.bucketOf_ok (places (userPart internalKey))
      exact (HashedChainTable.contains_eq arranges total readable tagged user place).imp
        fun _ found => found.1

end Cursors

/-- The reasons for which a table may refuse an entry: it repeats a key, or the table is read-only, or its
entries were sorted. -/
inductive MayRefuse (table : MemTable) (entry : Bytes) : Failure → Prop
  | duplicate (place : DuplicatePlace) (repeats : table.shelf.Repeats entry) :
    MayRefuse table entry (.duplicateKey place)
  | readOnly (closed : table.isReadOnly = true) : MayRefuse table entry (.readOnly table.kind)
  | sorted {index : VectorTable} (same : table = vector index) (sorted : index.index.sorted = true) :
    MayRefuse table entry .alreadySorted

section Refusals

variable {entry : Bytes} {failure : Failure}

/-- The index of a linked table refuses only what repeats a key. -/
theorem Holds.refuses_duplicate (holds : table.Holds order placing taken)
    (total : order.TotalOn HasTag) (linked : table.kind ≠ .vector)
    (readable : ∀ entry ∈ taken, HasKey HasTag entry) (lists : table.MakesLists)
    (places : ∀ userKey, Places placing userKey) (hasKey : HasKey HasTag entry)
    (refused : table.Refuses entry failure) :
    (∃ place, failure = .duplicateKey place) ∧ table.shelf.Repeats entry := by
  obtain ⟨key, cut, tagged⟩ := hasKey
  have user := entryUserKey_eq cut tagged
  obtain ⟨rfl, rfl, index⟩ := holds
  cases table with
  | vector table => exact absurd rfl linked
  | cuckoo table => exact index.elim
  | skipList table =>
    obtain ⟨rows, entries, arranges⟩ := index
    obtain ⟨_, _, _, _, _, ⟨duplicate, ties⟩ | ⟨accepted, _⟩⟩ :=
      arranges.linked.spliceFor_cases arranges.tallied total arranges.reads
        (fun other member => readable other (arranges.all.mem_iff.mp member)) arranges.sorted
        ⟨key, cut, tagged⟩
    · exact ⟨⟨_, Except.error.inj (refused.symm.trans duplicate)⟩, arranges.reads.repeats ties⟩
    · cases accepted.symm.trans refused
  | hashedSkipLists table =>
    obtain ⟨rows, held, arranges⟩ := index
    obtain ⟨bucket, place⟩ := Places.bucketOf_ok (places (userPart key))
    obtain ⟨list, size, offered⟩ := lists.offers user place
    rcases refused with refused | ⟨_, _, _, again, refused⟩
    · cases offered.symm.trans refused
    · obtain ⟨rfl, rfl, rfl⟩ : _ ∧ _ ∧ _ := by simpa using offered.symm.trans again
      obtain ⟨_, _, _, _, _, ⟨duplicate, ties⟩ | ⟨accepted, _⟩⟩ :=
        (HashedSkipTable.offer_ok arranges offered).1.spliceFor_cases arranges.2 total
          (arranges.1.reads bucket)
          (fun other member => readable other (arranges.1.mem_iff.mpr ⟨bucket, member⟩))
          (arranges.1.sorted bucket) ⟨key, cut, tagged⟩
      · exact ⟨⟨_, Except.error.inj (refused.symm.trans duplicate)⟩,
          (arranges.1.reads bucket).repeats ties⟩
      · cases accepted.symm.trans refused
  | hashedChains table =>
    obtain ⟨rows, held, arranges⟩ := index
    obtain ⟨bucket, place⟩ := Places.bucketOf_ok (places (userPart key))
    have bucketed : table.index.bucketOf (userPart key) = .ok bucket := place
    have chain : table.index.chainOf bucket = .ok (rows bucket) :=
      (arranges.1.linked bucket).chain_eq arranges.2
    have total : table.shelf.order.TotalOn HasTag := total
    obtain ⟨_, _, _, _, _, ⟨duplicate, ties⟩ | ⟨accepted, _⟩⟩ :=
      ChainStore.gapIn_cases total (arranges.1.reads bucket)
        (fun other member => readable other (arranges.1.mem_iff.mpr ⟨bucket, member⟩))
        (arranges.1.sorted bucket) ⟨key, cut, tagged⟩
    · simp only [Refuses, HashedChainTable.placeFor, user, bucketed, chain, duplicate, bind,
        Except.bind] at refused
      exact ⟨⟨_, (Except.error.inj refused).symm⟩, (arranges.1.reads bucket).repeats ties⟩
    · simp only [Refuses, HashedChainTable.placeFor, user, bucketed, chain, accepted, bind,
        Except.bind] at refused
      cases refused

/-- An insert into a sorted vector that takes entries reports that. -/
theorem vector_sorted {table : VectorTable} (vacant : table.gate.occupied = false)
    (opened : table.isReadOnly = false) (sorted : table.index.sorted = true) (draft : Draft) :
    (VectorTable.insert draft table).2 = .error .alreadySorted := by
  rw [VectorTable.insert, Table.asWriter_open _ _ opened vacant]
  simp only [Table.takeIn, sorted, if_true]

/-- An insert of an entry with a key is refused for the reasons that are meant only, or because its draft
cannot be published. -/
theorem Steady.insert_refused (steady : table.Steady order) (total : order.TotalOn HasTag)
    (sound : table.Sound) {draft : Draft} (usable : draft.handle ≠ .nowhere)
    (hasKey : HasKey HasTag draft.bytes) (refused : (table.insert draft).2 = .error failure) :
    MayRefuse table draft.bytes failure ∨ table.arena.publish draft = .error failure := by
  rcases sound.insert_cases usable with ⟨left, reason, failed, _, cause⟩ | ⟨now, done, _⟩
  · obtain rfl : reason = failure := by simpa [failed] using refused
    by_cases closed : table.isReadOnly = true
    · rw [insert_closed closed] at refused
      exact .inl (Except.error.inj refused ▸ .readOnly closed)
    · rcases cause with isReadOnly | refuses | unpublished
      · exact absurd isReadOnly closed
      · left
        cases steady with
        | linked linked holds readable lists places =>
          obtain ⟨⟨place, rfl⟩, repeats⟩ :=
            holds.refuses_duplicate total linked readable lists places hasKey refuses
          exact .duplicate place repeats
        | @vector table _ _ =>
          have answer := vector_sorted sound.vacant (Bool.eq_false_iff.mpr closed) refuses draft
          exact Except.error.inj (answer.symm.trans refused) ▸ .sorted rfl refuses
        | cuckoo sameOrder stocked =>
          obtain ⟨rfl, repeats⟩ := stocked.refused (sameOrder ▸ total) hasKey refuses
          exact .duplicate .cuckooTable repeats
      · exact .inr unpublished
  · rw [done] at refused
    cases refused

end Refusals

end MemTable

end WriteBuffer
