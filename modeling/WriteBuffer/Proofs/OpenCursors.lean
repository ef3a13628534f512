import Mathlib
import WriteBuffer.Proofs.Extending
import WriteBuffer.Proofs.Lists

/-!
Cursors that stay open while entries are inserted. A cursor along a list is at a row, and rows stay
rows: no operation changes what the cursor shows (`Reading.Along.operate`), and each movement answers
from the list as it is then (`Reading.Along.answers`). A cursor over a run of handles answers from the
entries that it was opened on (`Reading.Fixed.answers`). `MemTable.open_cursors_read` says so of the
cursors that a table hands out.
-/
namespace WriteBuffer

/-- A table and a cursor that was opened on it. -/
structure Reading where
  table : MemTable
  cursor : TableCursor

/-- An operation on the table, or a movement of the cursor. -/
inductive Action
  | operate (operation : Operation)
  | move (motion : Motion)

def Action.operations (actions : List Action) : List Operation :=
  actions.filterMap fun
    | .operate operation => some operation
    | .move _ => none

theorem Action.operations_operate (operation : Operation) (rest : List Action) :
    operations (.operate operation :: rest) = operation :: operations rest := rfl

namespace Reading

/-- The entry under the cursor, or nothing when it is at none. -/
def shows (reading : Reading) : Except Failure (Option Bytes) :=
  reading.table.moves.current reading.cursor

/-- What an action leaves behind. A movement that fails leaves the cursor where it is. -/
def act (reading : Reading) : Action → Reading
  | .operate operation => { reading with table := reading.table.perform operation }
  | .move motion => { reading with cursor := reading.table.moves.travel [motion] reading.cursor }

/-- What actions leave behind, carried out one after the other. -/
def run (reading : Reading) (actions : List Action) : Reading := actions.foldl act reading

/-- The entries that the cursor shows after each of its movements. -/
def visited : Reading → List Action → List Bytes
  | _, [] => []
  | reading, .operate operation :: rest => visited (reading.act (.operate operation)) rest
  | reading, .move motion :: rest =>
    ((reading.act (.move motion)).shows.toOption.join).toList
      ++ visited (reading.act (.move motion)) rest

variable {order : KeyOrder} {placing : Option (Placement × Nat)} {taken : List Bytes}
  {keys : Bytes → Prop} {reading : Reading} {bucket : Nat} {shown : Option Bytes}

theorem run_append (reading : Reading) (earlier later : List Action) :
    reading.run (earlier ++ later) = (reading.run earlier).run later :=
  List.foldl_append ..

theorem act_ok {motion : Motion} {cursor : TableCursor}
    (moved : reading.table.moves.move motion reading.cursor = .ok cursor) :
    reading.act (.move motion) = { reading with cursor } := by
  simp only [act, Moves.travel, List.foldl_cons, List.foldl_nil, moved, Except.toOption,
    Option.getD_some]

theorem act_error {motion : Motion} {failure : Failure}
    (failed : reading.table.moves.move motion reading.cursor = .error failure) :
    reading.act (.move motion) = reading := by
  simp only [act, Moves.travel, List.foldl_cons, List.foldl_nil, failed, Except.toOption,
    Option.getD_none]

theorem run_table (reading : Reading) (actions : List Action) :
    (reading.run actions).table = reading.table.run (Action.operations actions) := by
  induction actions generalizing reading with
  | nil => rfl
  | cons action rest ih =>
    rw [run, List.foldl_cons, ← run, ih]
    cases action <;> rfl

/-- A cursor is along the list of a bucket, at the row of the entry that it shows or at none. -/
def Along (reading : Reading) (order : KeyOrder) (placing : Option (Placement × Nat)) (bucket : Nat)
    (taken : List Bytes) (shown : Option Bytes) : Prop :=
  ∃ rows entries index, reading.table.Lists order placing bucket rows entries taken ∧
    reading.cursor = .list { bucket, place := nodeAt rows (inside entries index) } ∧
    entries[index]? = shown

namespace Along

theorem shows_eq (along : reading.Along order placing bucket taken shown)
    (total : order.TotalOn keys) (readable : ∀ entry ∈ taken, HasKey keys entry) :
    reading.shows = .ok shown := by
  obtain ⟨rows, entries, index, lists, cursor, rfl⟩ := along
  rw [shows, cursor]
  exact (lists.follows total readable).current_inside index

/-- A cursor along a list answers from the entries that the list is for. -/
theorem answers (along : reading.Along order placing bucket taken shown)
    (total : order.TotalOn keys) (readable : ∀ entry ∈ taken, HasKey keys entry) :
    reading.table.moves.Answers order keys
      (fun entry => entry ∈ taken ∧ MemTable.Covers placing bucket entry) reading.cursor := by
  obtain ⟨rows, entries, index, lists, cursor, _⟩ := along
  rw [cursor]
  exact ((lists.follows total readable).answers total
    (fun entry member => readable entry (lists.mem_iff.mp member).1) lists.sorted index).congr
      fun _ => lists.mem_iff

/-- No operation changes what the cursor shows: its row stays a row, wherever others are put. -/
theorem operate (along : reading.Along order placing bucket taken shown)
    (total : order.TotalOn keys) (operation : Operation)
    (readable : ∀ entry ∈ taken ++ reading.table.added operation, HasKey keys entry) :
    (reading.act (.operate operation)).Along order placing bucket
      (taken ++ reading.table.added operation) shown := by
  obtain ⟨rows, entries, index, lists, cursor, found⟩ := along
  obtain ⟨grown, listed, sub, now⟩ := lists.perform total operation readable
  obtain ⟨reached, sameNode, sameEntry⟩ := lists.reads.stays now.reads sub
    (MemTable.perform_extends reading.table operation).keeps index
  exact ⟨grown, listed, reached, now, by rw [← sameNode]; exact cursor, sameEntry.symm.trans found⟩

/-- After a movement the cursor is at some row of the same list or at none. -/
theorem move (along : reading.Along order placing bucket taken shown)
    (total : order.TotalOn keys) (readable : ∀ entry ∈ taken, HasKey keys entry) {motion : Motion}
    (known : ∀ target, motion = .seek target → keys target) :
    ∃ now, (reading.act (.move motion)).Along order placing bucket taken now := by
  obtain ⟨rows, entries, index, lists, cursor, _⟩ := along
  obtain ⟨reached, moved⟩ := (lists.follows total readable).travel_inside total
    (fun entry member => readable entry (lists.mem_iff.mp member).1) lists.sorted known index
  refine ⟨_, rows, entries, reached, lists, ?_, rfl⟩
  rw [act, cursor]
  exact moved

theorem hasKey (along : reading.Along order placing bucket taken shown) (total : order.TotalOn keys)
    (readable : ∀ entry ∈ taken, HasKey keys entry) {entry : Bytes} (here : shown = some entry) :
    HasKey keys entry := by
  obtain ⟨found, current, stored⟩ := (along.answers total readable).current
  obtain rfl := Except.ok.inj ((along.shows_eq total readable).symm.trans current)
  exact readable entry (stored entry here).1

/-- What actions of any kind leave behind is a cursor along the same list. -/
theorem run (along : reading.Along order placing bucket taken shown) (total : order.TotalOn keys)
    (actions : List Action)
    (readable : ∀ entry ∈ taken ++ MemTable.accepted reading.table (Action.operations actions),
      HasKey keys entry)
    (known : ∀ target, .move (.seek target) ∈ actions → keys target) :
    ∃ now, (reading.run actions).Along order placing bucket
      (taken ++ MemTable.accepted reading.table (Action.operations actions)) now := by
  induction actions generalizing reading taken shown with
  | nil =>
    rw [Action.operations, List.filterMap_nil, MemTable.accepted, List.append_nil]
    exact ⟨shown, along⟩
  | cons action rest ih =>
    have later : ∀ target, .move (.seek target) ∈ rest → keys target := fun target member =>
      known target (List.mem_cons_of_mem _ member)
    cases action with
    | operate operation =>
      rw [Action.operations_operate, MemTable.accepted, ← List.append_assoc] at readable ⊢
      have step := along.operate total operation fun entry member =>
        readable entry (List.mem_append_left _ member)
      exact ih step readable later
    | move motion =>
      obtain ⟨now, step⟩ := along.move total
        (fun entry member => readable entry (List.mem_append_left _ member))
        fun target same => known target (same ▸ List.mem_cons_self)
      exact ih step readable later

theorem next (along : reading.Along order placing bucket taken shown) (total : order.TotalOn keys)
    (readable : ∀ entry ∈ taken, HasKey keys entry) {entry : Bytes} (here : shown = some entry) :
    ∃ found, (reading.act (.move .next)).Along order placing bucket taken found ∧
      order.Least (fun other => (other ∈ taken ∧ MemTable.Covers placing bucket other) ∧
        order.Below entry other) found := by
  have anyTarget : ∀ target, Motion.next = .seek target → keys target := by simp
  obtain ⟨now, step⟩ := along.move total readable anyTarget
  obtain ⟨cursor, found, moved, current, least⟩ := (along.answers total readable).next entry
    (here ▸ along.shows_eq total readable)
  have reached : (reading.act (.move .next)).shows = .ok found := by
    have movedOn : reading.table.moves.move .next reading.cursor = _ := moved
    rw [act_ok movedOn]
    exact current
  obtain rfl := Except.ok.inj ((step.shows_eq total readable).symm.trans reached)
  exact ⟨now, step, least⟩

theorem next_none (along : reading.Along order placing bucket taken none)
    (total : order.TotalOn keys) (readable : ∀ entry ∈ taken, HasKey keys entry) :
    (reading.act (.move .next)).Along order placing bucket taken none := by
  obtain ⟨rows, entries, index, lists, cursor, outside⟩ := along
  have nowhere : inside entries index = none :=
    if_neg (Nat.not_lt_of_le (List.getElem?_eq_none_iff.mp outside))
  have stops : reading.table.moves.move .next reading.cursor = .error .unpositioned := by
    rw [cursor, nowhere]
    exact (lists.follows total readable).stops.1
  rw [act_error stops]
  exact ⟨rows, entries, index, lists, cursor, outside⟩

/-- A walk that starts at no entry visits none. -/
theorem walk_none (along : reading.Along order placing bucket taken none)
    (total : order.TotalOn keys) {walk : List Action}
    (onward : ∀ motion, .move motion ∈ walk → motion = .next)
    (readable : ∀ entry ∈ taken ++ MemTable.accepted reading.table (Action.operations walk),
      HasKey keys entry) : reading.visited walk = [] := by
  induction walk generalizing reading taken with
  | nil => rfl
  | cons action rest ih =>
    have later : ∀ motion, .move motion ∈ rest → motion = .next := fun motion member =>
      onward motion (List.mem_cons_of_mem _ member)
    cases action with
    | operate operation =>
      rw [Action.operations_operate, MemTable.accepted, ← List.append_assoc] at readable
      exact ih (along.operate total operation fun entry member =>
        readable entry (List.mem_append_left _ member)) later readable
    | move motion =>
      obtain rfl := onward motion List.mem_cons_self
      have readableNow : ∀ entry ∈ taken, HasKey keys entry := fun entry member =>
        readable entry (List.mem_append_left _ member)
      have step := along.next_none total readableNow
      rw [visited, step.shows_eq total readableNow, ih step later readable]
      rfl

/-- A walk on from an entry to the end visits entries in strictly ascending order, among them every
one above the start that was there at the start, whatever was inserted meanwhile. -/
theorem walk (along : reading.Along order placing bucket taken shown) (total : order.TotalOn keys)
    {entry : Bytes} (start : shown = some entry) {walk : List Action}
    (onward : ∀ motion, .move motion ∈ walk → motion = .next)
    (readable : ∀ entry ∈ taken ++ MemTable.accepted reading.table (Action.operations walk),
      HasKey keys entry) (ends : (reading.run walk).shows = .ok none) :
    (∀ other ∈ reading.visited walk, HasKey keys other) ∧
      order.Sorted (entry :: reading.visited walk) ∧
      ∀ other, other ∈ taken ∧ MemTable.Covers placing bucket other → order.Below entry other →
        other ∈ reading.visited walk := by
  induction walk generalizing reading taken entry shown with
  | nil =>
    have here := along.shows_eq total fun entry member => readable entry (List.mem_append_left _ member)
    rw [start] at here
    cases here.symm.trans ends
  | cons action rest ih =>
    have later : ∀ motion, .move motion ∈ rest → motion = .next := fun motion member =>
      onward motion (List.mem_cons_of_mem _ member)
    have readableNow : ∀ entry ∈ taken, HasKey keys entry := fun entry member =>
      readable entry (List.mem_append_left _ member)
    cases action with
    | operate operation =>
      rw [Action.operations_operate, MemTable.accepted, ← List.append_assoc] at readable
      have step := along.operate total operation fun entry member =>
        readable entry (List.mem_append_left _ member)
      obtain ⟨keyed, sorted, all⟩ := ih step start later readable ends
      exact ⟨keyed, sorted, fun other stored => all other ⟨List.mem_append_left _ stored.1, stored.2⟩⟩
    | move motion =>
      obtain rfl := onward motion List.mem_cons_self
      obtain ⟨found, step, least⟩ := along.next total readableNow start
      have reached := step.shows_eq total readableNow
      cases found with
      | none =>
        have nothing := step.walk_none total later readable
        rw [visited, reached, nothing]
        exact ⟨by simp [Except.toOption], List.pairwise_singleton .., fun other stored above =>
          (least other ⟨stored, above⟩).elim⟩
      | some next =>
        obtain ⟨⟨⟨member, covers⟩, above⟩, lowest⟩ := least
        obtain ⟨keyed, sorted, all⟩ := ih step rfl later readable ends
        have entryKey := along.hasKey total readableNow start
        have nextKey := readableNow next member
        rw [visited, reached]
        simp only [Except.toOption, Option.join_some, Option.toList_some, List.singleton_append]
        refine ⟨List.forall_mem_cons.mpr ⟨nextKey, keyed⟩, List.pairwise_cons.mpr ⟨?_, sorted⟩, ?_⟩
        · refine List.forall_mem_cons.mpr ⟨above, fun other visited => ?_⟩
          exact total.below_trans entryKey nextKey (keyed other visited) above
            ((List.pairwise_cons.mp sorted).1 other visited)
        · intro other stored higher
          rcases lowest other ⟨stored, higher⟩ with rfl | beyond
          · exact List.mem_cons_self
          · exact List.mem_cons_of_mem _ (all other stored beyond)

end Along

/-- A cursor is over a run of handles that name the given entries. -/
structure Fixed (reading : Reading) (order : KeyOrder) (handles : List Handle) (entries : List Bytes) :
    Prop where
  order : reading.table.shelf.order = order
  reads : reading.table.shelf.Reads handles entries
  cursor : ∃ index, reading.cursor = .run { handles, position := inside entries index }

namespace Fixed

variable {handles : List Handle} {entries : List Bytes}

theorem follows (fixed : reading.Fixed order handles entries) :
    reading.table.moves.Follows order entries fun position => .run { handles, position } := by
  obtain ⟨rule, lists, openBucket, moves⟩ := reading.table.moves_eq
  rw [moves, ← fixed.order]
  exact MemTable.bucketMoves_run (RunCursor.follows fixed.reads)

/-- A cursor over a run of handles answers from the entries that they name. -/
theorem answers (fixed : reading.Fixed order handles entries) (total : order.TotalOn keys)
    (readable : ∀ entry ∈ entries, HasKey keys entry) (sorted : order.Sorted entries) :
    reading.table.moves.Answers order keys (· ∈ entries) reading.cursor := by
  obtain ⟨index, cursor⟩ := fixed.cursor
  rw [cursor]
  exact fixed.follows.answers total readable sorted index

theorem act (fixed : reading.Fixed order handles entries) (total : order.TotalOn keys)
    (readable : ∀ entry ∈ entries, HasKey keys entry) (sorted : order.Sorted entries)
    {action : Action} (known : ∀ target, action = .move (.seek target) → keys target) :
    (reading.act action).Fixed order handles entries := by
  obtain ⟨index, cursor⟩ := fixed.cursor
  cases action with
  | operate operation =>
    obtain ⟨order, keeps⟩ := MemTable.perform_extends reading.table operation
    exact ⟨order.trans fixed.order, fixed.reads.keeps keeps, index, cursor⟩
  | move motion =>
    obtain ⟨reached, moved⟩ := fixed.follows.travel_inside total readable sorted
      (fun target same => known target (same ▸ rfl)) index
    refine ⟨fixed.order, fixed.reads, reached, ?_⟩
    rw [Reading.act, cursor]
    exact moved

theorem run (fixed : reading.Fixed order handles entries) (total : order.TotalOn keys)
    (readable : ∀ entry ∈ entries, HasKey keys entry) (sorted : order.Sorted entries)
    (actions : List Action) (known : ∀ target, .move (.seek target) ∈ actions → keys target) :
    (reading.run actions).Fixed order handles entries := by
  induction actions generalizing reading with
  | nil => exact fixed
  | cons action rest ih =>
    refine ih (fixed.act total readable sorted ?_) ?_
    · exact fun target same => known target (same ▸ List.mem_cons_self)
    · exact fun target member => known target (List.mem_cons_of_mem _ member)

end Fixed

/-- What a cursor does that reads entries as they are stored at each moment, `stored` after each
sequence of actions. Its movements are answered from what is stored, no operation changes what it
shows, and a walk on from an entry to the end visits entries in strictly ascending order, among them
every one above the start that was stored at the start. -/
structure ReadsLive (opened : Reading) (order : KeyOrder) (keys : Bytes → Prop)
    (stored : List Action → Bytes → Prop) (actions : List Action) : Prop where
  answers : (opened.run actions).table.moves.Answers order keys (stored actions)
    (opened.run actions).cursor
  unmoved : ∀ {earlier operation}, actions = earlier ++ [.operate operation] →
    (opened.run actions).shows = (opened.run earlier).shows
  walks : ∀ {earlier walk entry}, actions = earlier ++ walk →
    (∀ motion, .move motion ∈ walk → motion = .next) →
    (opened.run earlier).shows = .ok (some entry) → (opened.run actions).shows = .ok none →
      order.Sorted (entry :: (opened.run earlier).visited walk) ∧
        ∀ other, stored earlier other → order.Below entry other →
          other ∈ (opened.run earlier).visited walk

/-- A cursor along a list reads entries as they are stored. -/
theorem Along.readsLive (along : reading.Along order placing bucket taken shown)
    (total : order.TotalOn keys) {actions : List Action}
    (readable : ∀ entry ∈ taken ++ MemTable.accepted reading.table (Action.operations actions),
      HasKey keys entry)
    (known : ∀ target, .move (.seek target) ∈ actions → keys target) :
    reading.ReadsLive order keys (fun actions entry =>
      entry ∈ taken ++ MemTable.accepted reading.table (Action.operations actions) ∧
        MemTable.Covers placing bucket entry) actions := by
  -- What was accepted before, and what was accepted by a part of the actions.
  have parts : ∀ earlier later : List Action,
      taken ++ MemTable.accepted reading.table (Action.operations (earlier ++ later))
        = taken ++ MemTable.accepted reading.table (Action.operations earlier)
          ++ MemTable.accepted (reading.run earlier).table (Action.operations later) := by
    intro earlier later
    rw [Action.operations, List.filterMap_append, MemTable.accepted_append, run_table,
      List.append_assoc]
    rfl
  obtain ⟨now, ran⟩ := along.run total actions readable known
  refine ⟨ran.answers total readable, ?_, ?_⟩
  · rintro earlier operation rfl
    rw [parts] at readable
    have readableEarlier : ∀ entry ∈ taken ++ MemTable.accepted reading.table
        (Action.operations earlier), HasKey keys entry := fun entry member =>
      readable entry (List.mem_append_left _ member)
    obtain ⟨before, start⟩ := along.run total earlier readableEarlier fun target member =>
      known target (List.mem_append_left _ member)
    have added : MemTable.accepted (reading.run earlier).table
        (Action.operations [.operate operation]) = (reading.run earlier).table.added operation :=
      List.append_nil _
    rw [added] at readable
    have step := start.operate total operation readable
    rw [run_append, start.shows_eq total readableEarlier]
    exact step.shows_eq total readable
  · rintro earlier walk entry rfl onward here ends
    rw [parts] at readable
    obtain ⟨before, start⟩ := along.run total earlier
      (fun entry member => readable entry (List.mem_append_left _ member)) fun target member =>
        known target (List.mem_append_left _ member)
    rw [start.shows_eq total fun entry member => readable entry (List.mem_append_left _ member),
      Except.ok.injEq] at here
    rw [run_append] at ends
    exact (start.walk total here onward readable ends).2

end Reading

namespace MemTable

variable {order : KeyOrder} {placing : Option (Placement × Nat)} {taken : List Bytes}
  {keys : Bytes → Prop} {table : MemTable}

/-- A range whose cursors read a list of a table that has taken in some entries, and which entries the
list is for: all of them in a table with one list, and those of a bucket that has entries. -/
inductive Watches (table : MemTable) (taken : List Bytes) : Range → (Bytes → Prop) → Prop
  | all (range : Range) (one : table.kind = .skipList) : Watches table taken range fun _ => True
  | bucket {placement : Placement} {count bucket : Nat} {userKey entry : Bytes}
    (placed : table.placing = some (placement, count))
    (place : placement.bucketOf count userKey = .ok bucket) (member : entry ∈ taken)
    (covers : Covers table.placing bucket entry) :
    Watches table taken (.bucketOf userKey) (Covers table.placing bucket)

/-- A cursor that is to read a list is along that list, at no entry yet. -/
theorem Holds.opensList (holds : table.Holds order placing taken) {range : Range}
    {covers : Bytes → Prop} (watches : table.Watches taken range covers) :
    ∃ bucket, table.openCursor range = (table, .ok (.list { bucket })) ∧
      (∀ entry, Covers placing bucket entry ↔ covers entry) ∧
      Reading.Along ⟨table, .list { bucket }⟩ order placing bucket taken none := by
  have along : table.kind ≠ .vector → ∀ bucket,
      Reading.Along ⟨table, .list { bucket }⟩ order placing bucket taken none := by
    intro linked bucket
    obtain ⟨rows, entries, lists⟩ := holds.lists linked bucket
    refine ⟨rows, entries, entries.length, lists, ?_, by simp⟩
    simp [inside, nodeAt]
  obtain ⟨_, rfl, index⟩ := holds
  cases watches with
  | all range one =>
    cases table with
    | skipList table =>
      refine ⟨0, rfl, fun entry => ⟨fun _ => trivial, fun _ => ?_⟩, along (by simp [kind]) 0⟩
      rintro _ _ ⟨⟩
    | vector | hashedSkipLists | hashedChains | cuckoo => cases one
  | @bucket placement count bucket userKey entry placed place member covers =>
    obtain ⟨own, cut, ownPlace⟩ := covers placed
    have bucketed : table.kind ≠ .vector := by
      cases table <;> simp_all [MemTable.placing, kind]
    refine ⟨bucket, ?_, fun _ => Iff.rfl, along bucketed bucket⟩
    cases table with
    | skipList | vector | cuckoo => cases placed
    | hashedSkipLists table =>
      obtain ⟨rfl, rfl⟩ := Prod.mk.inj (Option.some.inj placed)
      obtain ⟨rows, held, arranges⟩ := index
      have inBucket := arranges.1.mem_bucket ownPlace member cut
      cases present : table.index.buckets.get? bucket with
      | none => simp [arranges.1.vacant bucket present] at inBucket
      | some list =>
        simp only [MemTable.openCursor, HashedSkipTable.bucketCursor, HashedSkipIndex.bucketOf, place,
          bind, Except.bind, pure, Except.pure, present, Option.map_some, Option.elim_some]
    | hashedChains table =>
      obtain ⟨rfl, rfl⟩ := Prod.mk.inj (Option.some.inj placed)
      obtain ⟨rows, held, arranges⟩ := index
      have inBucket := arranges.1.mem_bucket ownPlace member cut
      cases present : table.index.heads.get? bucket with
      | none => simp [arranges.1.vacant bucket present] at inBucket
      | some head =>
        simp only [MemTable.openCursor, HashedChainTable.bucketCursor, HashedChainIndex.bucketOf,
          place, bind, Except.bind, pure, Except.pure, present, Option.map_some, Option.elim_some]

/-- A cursor over all entries of a table with buckets is over their handles, put in order. -/
theorem Holds.opensRun (holds : table.Holds order placing taken) (total : order.TotalOn keys)
    (readable : ∀ entry ∈ taken, HasKey keys entry) (buckets : placing.isSome)
    (sameUser : ∀ a ∈ taken, ∀ b ∈ taken, order.Ties a b → entryUserKey a = entryUserKey b) :
    ∃ handles entries, table.openCursor .all = (table, .ok (.run { handles })) ∧
      table.shelf.Reads handles entries ∧ order.Sorted entries ∧ entries.Perm taken := by
  obtain ⟨rfl, rfl, index⟩ := holds
  cases table with
  | skipList | vector | cuckoo => cases buckets
  | hashedSkipLists table =>
    have untied : table.shelf.order.Untied taken := by
      obtain ⟨rows, held, arranges⟩ := index
      exact arranges.1.untied total readable sameUser
    obtain ⟨handles, entries, merged, rest⟩ :=
      HashedSkipTable.sortedHandles_holds index total readable untied
    refine ⟨handles, entries, ?_, rest⟩
    simp only [MemTable.openCursor, merged]
    rfl
  | hashedChains table =>
    have untied : table.shelf.order.Untied taken := by
      obtain ⟨rows, held, arranges⟩ := index
      exact arranges.1.untied total readable sameUser
    obtain ⟨handles, entries, merged, rest⟩ :=
      HashedChainTable.sortedHandles_holds index total readable untied
    refine ⟨handles, entries, ?_, rest⟩
    simp only [MemTable.openCursor, merged]
    rfl

/-- Cursors that stay open on a table that links its entries, opened after some operations and
followed by any operations and movements. One over a skip list, or over a bucket that has entries,
reads what is inserted later as if it had been there before. One over all buckets answers every
movement from what was stored when it was opened. -/
theorem open_cursors_read (total : order.TotalOn keys) (fresh : Fresh order table)
    (linked : table.kind ≠ .vector) (operations : List Operation)
    (readable : ∀ entry ∈ accepted table operations, HasKey keys entry) :
    (∀ range covers, (table.run operations).Watches (accepted table operations) range covers →
      ∃ cursor, (table.run operations).openCursor range = (table.run operations, .ok cursor) ∧
        ∀ actions, (∀ entry ∈ accepted table (operations ++ Action.operations actions),
            HasKey keys entry) →
          (∀ target, .move (.seek target) ∈ actions → keys target) →
          Reading.ReadsLive ⟨table.run operations, cursor⟩ order keys (fun actions entry =>
            entry ∈ accepted table (operations ++ Action.operations actions) ∧ covers entry)
            actions) ∧
    (table.placing.isSome →
      (∀ {a b}, keys a → keys b → order.compareKeys a b = .ok .eq → a = b) →
      ∃ cursor, (table.run operations).openCursor .all = (table.run operations, .ok cursor) ∧
        ∀ actions, (∀ target, .move (.seek target) ∈ actions → keys target) →
          let now := Reading.run ⟨table.run operations, cursor⟩ actions
          now.table.moves.Answers order keys (· ∈ accepted table operations) now.cursor) := by
  have holds := run_holds fresh total operations readable fun isVector => absurd isVector linked
  constructor
  · intro range covers watches
    obtain ⟨bucket, opened, same, along⟩ := holds.opensList watches
    refine ⟨_, opened, ?_⟩
    intro actions readableLater known
    rw [accepted_append] at readableLater
    simp only [accepted_append, ← same]
    exact along.readsLive total readableLater known
  · intro buckets antisymmetric
    have sameUser : ∀ a ∈ accepted table operations, ∀ b ∈ accepted table operations,
        order.Ties a b → entryUserKey a = entryUserKey b := by
      intro a inA b inB ties
      obtain ⟨keyA, cutA, heldA⟩ := readable a inA
      obtain ⟨keyB, cutB, heldB⟩ := readable b inB
      rw [KeyOrder.Ties, KeyOrder.compareEntries_eq order cutB, KeyOrder.compareEntryKey_eq order cutA]
        at ties
      rw [entryUserKey, entryUserKey, cutA, cutB, antisymmetric heldA heldB ties]
    obtain ⟨handles, entries, opened, reads, sorted, perm⟩ :=
      holds.opensRun total readable buckets sameUser
    refine ⟨_, opened, ?_⟩
    intro actions known now
    have readableEntries : ∀ entry ∈ entries, HasKey keys entry := fun entry member =>
      readable entry (perm.mem_iff.mp member)
    have fixed : Reading.Fixed ⟨table.run operations, .run { handles }⟩ order handles entries :=
      ⟨holds.order, reads, entries.length, by simp [inside]⟩
    exact ((fixed.run total readableEntries sorted actions known).answers total readableEntries
      sorted).congr fun _ => perm.mem_iff

/-- A cursor stays at its entry while a newer version is put in front of it. -/
theorem open_cursor_stays :
    let table := hashedChains {
      shelf := { order := .versioned, arena := { id := 0 } }
      index := { placement := { rule := .whole, hash := fun _ => 0 }, heads := .empty 1 } }
    let older : Bytes := [9, 0, 0, 0, 97, 1, 1, 0, 0, 0, 0, 0, 0, 0, 0, 0, 0]
    let newer : Bytes := [9, 0, 0, 0, 97, 1, 2, 0, 0, 0, 0, 0, 0, 0, 0, 0, 0]
    let opened : Reading := ⟨table.run [.insert ⟨0, ⟨0⟩, older⟩], .list { bucket := 0 }⟩
    let actions : List Action := [.move .first, .operate (.insert ⟨0, ⟨1⟩, newer⟩)]
    accepted table ([.insert ⟨0, ⟨0⟩, older⟩] ++ Action.operations actions) = [older, newer] ∧
      (opened.run actions).shows = .ok (some older) := by
  intro table older newer opened actions
  have one : accepted table [.insert ⟨0, ⟨0⟩, older⟩] = [older] := by decide +kernel
  have both : accepted table ([.insert ⟨0, ⟨0⟩, older⟩] ++ Action.operations actions)
      = [older, newer] := by decide +kernel
  have readable : ∀ entry ∈ [older, newer], HasKey HasTag entry := by
    intro entry member
    rcases List.mem_pair.mp member with rfl | rfl
    · exact WellFormed.hasTag ⟨⟨[97], 1, .put, []⟩, by decide +kernel⟩
    · exact WellFormed.hasTag ⟨⟨[97], 2, .put, []⟩, by decide +kernel⟩
  have fresh : Fresh .versioned table := @Fresh.hashedChains _ _ _ _ 1 0 rfl rfl
  have watches : opened.table.Watches (accepted table [.insert ⟨0, ⟨0⟩, older⟩]) (.bucketOf [97])
      (Covers opened.table.placing 0) := by
    rw [one]
    refine .bucket rfl (by decide +kernel) List.mem_cons_self ?_
    rintro _ _ ⟨⟩
    exact ⟨[97], by decide +kernel, by decide +kernel⟩
  obtain ⟨cursor, handedOut, reads⟩ := (open_cursors_read KeyOrder.versioned_totalOn fresh (by decide)
    [.insert ⟨0, ⟨0⟩, older⟩] (by rw [one]; exact fun entry member => readable entry (by grind))).1
      (.bucketOf [97]) _ watches
  obtain rfl : TableCursor.list { bucket := 0 } = cursor := by
    have inBucket : (opened.table.openCursor (.bucketOf [97])).2 = .ok (.list { bucket := 0 }) := by
      decide +kernel
    exact Except.ok.inj (inBucket.symm.trans (congrArg Prod.snd handedOut))
  have parts : actions = [.move .first] ++ [.operate (.insert ⟨0, ⟨1⟩, newer⟩)] := rfl
  have unmoved := (reads actions (both ▸ readable) (by simp [actions])).unmoved parts
  exact ⟨both, unmoved.trans (by decide +kernel)⟩

end MemTable

end WriteBuffer
