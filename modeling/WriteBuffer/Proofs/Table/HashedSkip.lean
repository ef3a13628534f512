import Mathlib
import WriteBuffer.Proofs.SkipList.Cursor
import WriteBuffer.Proofs.SkipList.Insert
import WriteBuffer.Proofs.Table.Basic
import WriteBuffer.Proofs.Table.Buckets
import WriteBuffer.Table.HashedSkip

/-!
Tables with a skip list in each bucket. Each list holds the entries of its bucket in order, and all
of them together what was taken in (`HashedSkipIndex.Holds`). An insert adds its entry or no more
than an empty list, and every row stays in its bucket (`HashedSkipTable.insert_arranges`).
-/
namespace WriteBuffer

variable {keys : Bytes → Prop} {taken : List Bytes} {rows : Nat → List Row}
  {held : Nat → List Bytes} {bucket : Nat}

namespace HashedSkipIndex

variable {index : HashedSkipIndex} {shelf : Shelf}

/-- The list of a bucket has exactly the given rows; a bucket without a list has none. -/
def Links (index : HashedSkipIndex) (bucket : Nat) (rows : List Row) : Prop :=
  ((index.buckets.get? bucket).getD { head := [none] }).LinkedAs index.nodes rows

/-- The lists of an index hold exactly the entries that were taken in, bucket by bucket. -/
def Arranges (index : HashedSkipIndex) (shelf : Shelf) (rows : Nat → List Row)
    (held : Nat → List Bytes) (taken : List Bytes) : Prop :=
  Arranged shelf index.placement index.buckets index.Links rows held taken ∧ index.nodes.Tallied

/-- An index holds exactly the entries that were taken in. -/
def Holds (index : HashedSkipIndex) (shelf : Shelf) (taken : List Bytes) : Prop :=
  ∃ rows held, index.Arranges shelf rows held taken

theorem Arranges.offered (arranges : index.Arranges shelf rows held taken) {list : SkipList}
    (linked : list.LinkedAs index.nodes (rows bucket)) :
    Arranges { index with buckets := index.buckets.put bucket list } shelf rows held taken := by
  refine ⟨arranges.1.fill rfl
    (show ((index.buckets.put bucket list).get? bucket).isSome by simp) ?_ ?_, arranges.2⟩
  · intro other different
    simp [different]
  · intro other
    rw [Links, Sparse.get?_put]
    split
    · next same => exact same ▸ linked
    · exact arranges.1.linked other

theorem Holds.keeps {next : Shelf} (holds : index.Holds shelf taken)
    (order : next.order = shelf.order) (keeps : shelf.arena.Keeps next.arena) :
    index.Holds next taken := by
  obtain ⟨rows, held, arranged, tallied⟩ := holds
  exact ⟨rows, held, arranged.keeps order keeps, tallied⟩

end HashedSkipIndex

namespace HashedSkipTable

variable {table : HashedSkipTable} {draft : Draft}

theorem create_holds {made : HashedSkipTable} {shelf : Shelf} {placement : Placement}
    {heights : Heights} {buckets maxHeight branching : Nat}
    (done : create shelf placement heights buckets maxHeight branching = .ok made) :
    made.shelf = shelf ∧ made.index.placement = placement ∧ made.index.buckets.size = buckets ∧
      made.index.Holds shelf [] := by
  simp only [create, bind_eq_ok, pure, Except.pure, Except.ok.injEq] at done
  obtain ⟨_, _, rfl⟩ := done
  refine ⟨rfl, rfl, rfl, _, _, Arranged.nothing shelf placement buckets ?_,
    ChunkStore.tallied_empty⟩
  intro bucket
  exact SkipList.linkedAs_nil _ (show 0 < 1 by decide)

/-- A list is offered to an entry in the bucket of its user key, on the rows of that bucket. -/
theorem offer_ok {list : SkipList} {size : Nat} {entry : Bytes}
    (arranges : table.index.Arranges table.shelf rows held taken)
    (offered : table.offer entry = .ok (bucket, list, size)) :
    list.LinkedAs table.index.nodes (rows bucket) ∧
      ∃ userKey, entryUserKey entry = .ok userKey ∧ table.index.bucketOf userKey = .ok bucket := by
  simp only [offer, bind_eq_ok] at offered
  obtain ⟨userKey, cut, place, found, offered⟩ := offered
  cases present : table.index.buckets.get? place with
  | some list =>
    simp only [present, pure, Except.pure, Except.ok.injEq, Prod.mk.injEq] at offered
    obtain ⟨rfl, rfl, _⟩ := offered
    have linked := arranges.1.linked place
    rw [HashedSkipIndex.Links, present] at linked
    exact ⟨linked, userKey, cut, found⟩
  | none =>
    simp only [present, bind_eq_ok, pure, Except.pure, Except.ok.injEq, Prod.mk.injEq] at offered
    obtain ⟨_, _, made, created, rfl, rfl, _⟩ := offered
    refine ⟨?_, userKey, cut, found⟩
    rw [arranges.1.rows_vacant present]
    simp only [SkipList.create] at created
    split at created
    · cases created
    · split at created
      · cases created
      · cases created
        exact SkipList.linkedAs_nil _ (by omega)

/-- An entry is linked into the list of its bucket, or no more than that list is made; every row stays
in its bucket. -/
theorem insertInto_arranges {list : SkipList} {size : Nat} {userKey : Bytes}
    (arranges : table.index.Arranges table.shelf rows held taken)
    (total : table.shelf.order.TotalOn keys) (readable : ∀ entry ∈ taken, HasKey keys entry)
    (linkedAs : list.LinkedAs table.index.nodes (rows bucket))
    (cut : entryUserKey draft.bytes = .ok userKey) (place : table.index.bucketOf userKey = .ok bucket)
    {now : HashedSkipTable} {answer : Except Failure Unit}
    (taking : insertInto draft bucket list size (setList table bucket list) = (now, answer))
    (hasKey : ∀ entry ∈ gained draft answer, HasKey keys entry) :
    now.shelf.order = table.shelf.order ∧ now.index.placement = table.index.placement ∧
      now.index.buckets.size = table.index.buckets.size ∧
      ∃ grown listed, (∀ bucket, rows bucket ⊆ grown bucket) ∧
        now.index.Arranges now.shelf grown listed (taken ++ gained draft answer) := by
  have prepared := arranges.offered linkedAs
  rcases Table.takeIn_stays draft _ _ (setList table bucket list) with
    ⟨failure, failed, order, keeps, index⟩ | ⟨splice, published, changed, spliced, stored, done, taken⟩
  · rw [← insertInto, taking] at failed order keeps index
    simp only at failed order keeps index
    rw [failed, index, gained, List.append_nil]
    exact ⟨order, rfl, rfl, rows, held, fun _ _ member => member, prepared.1.keeps order keeps,
      prepared.2⟩
  · rw [← insertInto, taking] at taken
    obtain ⟨rfl, rfl⟩ := Prod.mk.inj taken
    obtain ⟨arena, added, rfl⟩ := Table.publish_ok stored
    obtain ⟨read, keeps⟩ := Arena.get_publish added
    simp only [bind_eq_ok, pure, Except.pure, Except.ok.injEq] at done
    obtain ⟨⟨nodes, longer, height⟩, inserted, rfl⟩ := done
    obtain ⟨first, rest, smaller, greater, gap, ⟨refused, _⟩ | ⟨accepted, above⟩⟩ :=
      linkedAs.spliceFor_cases arranges.2 total (arranges.1.reads bucket)
        (fun entry member => readable entry (arranges.1.mem_iff.mpr ⟨bucket, member⟩))
        (arranges.1.sorted bucket) (hasKey draft.bytes (by simp [gained]))
    · cases refused.symm.trans spliced
    · obtain rfl := Except.ok.inj (accepted.symm.trans spliced)
      obtain ⟨id, free, linked, _, tallied, frame⟩ :=
        SkipList.LinkedAs.insertAt_ok (gap.rows ▸ linkedAs) arranges.2 inserted
      refine ⟨rfl, rfl, rfl, _, _, gap.subset_update id draft.handle,
        prepared.1.insert gap above rfl keeps read
          (fun other => (arranges.1.linked other).notMem_of_free free) cut place rfl
          (by simp [setList]) (fun other different => by simp [setList, different]) ?_ ?_, tallied⟩
      · simpa [HashedSkipIndex.Links, setList] using linked
      · intro other different
        have old := arranges.1.linked other
        simp only [HashedSkipIndex.Links, setList, Sparse.get?_put, different, if_false] at old ⊢
        refine old.frame ?_
        intro node inOther
        refine frame node ?_ ?_
        · rintro rfl
          exact old.notMem_of_free free inOther
        · rw [← gap.rows]
          exact arranges.1.disjoint different node inOther

/-- An insert adds its entry or no more than an empty list, and every row stays in its bucket. -/
theorem insert_arranges (arranges : table.index.Arranges table.shelf rows held taken)
    (total : table.shelf.order.TotalOn keys) (readable : ∀ entry ∈ taken, HasKey keys entry)
    (hasKey : ∀ entry ∈ gained draft (insert draft table).2, HasKey keys entry) :
    (insert draft table).1.shelf.order = table.shelf.order ∧
      (insert draft table).1.index.placement = table.index.placement ∧
      (insert draft table).1.index.buckets.size = table.index.buckets.size ∧
      ∃ grown listed, (∀ bucket, rows bucket ⊆ grown bucket) ∧
        (insert draft table).1.index.Arranges (insert draft table).1.shelf grown listed
          (taken ++ gained draft (insert draft table).2) := by
  rcases Table.asWriter_cases .hashedSkipLists _ table with
    ⟨failure, _, kept⟩ | ⟨gate, _, ⟨shelf, index, _⟩, _, answer⟩
  · rw [insert, kept]
    exact ⟨rfl, rfl, rfl, rows, held, fun _ _ member => member, by simpa [gained] using arranges⟩
  · rw [insert] at hasKey ⊢
    rw [answer] at hasKey ⊢
    rw [← shelf, ← index]
    clear shelf index answer
    cases offered : offer { table with gate } draft.bytes with
    | error failure =>
      simp only [offered] at hasKey ⊢
      exact ⟨trivial, trivial, trivial, rows, held, fun _ _ member => member,
        by simpa [gained] using arranges⟩
    | ok offer =>
      obtain ⟨bucket, list, size⟩ := offer
      obtain ⟨linkedAs, userKey, cut, place⟩ := offer_ok (by exact arranges) offered
      simp only [offered] at hasKey ⊢
      let entered : HashedSkipTable := { table with gate }
      have inside : entered.index.Arranges entered.shelf rows held taken := arranges
      exact insertInto_arranges inside total readable linkedAs cut place rfl hasKey

/-- An insert adds its entry or no more than an empty list. -/
theorem insert_holds (holds : table.index.Holds table.shelf taken)
    (total : table.shelf.order.TotalOn keys) (readable : ∀ entry ∈ taken, HasKey keys entry)
    (hasKey : ∀ entry ∈ gained draft (insert draft table).2, HasKey keys entry) :
    (insert draft table).1.shelf.order = table.shelf.order ∧
      (insert draft table).1.index.placement = table.index.placement ∧
      (insert draft table).1.index.buckets.size = table.index.buckets.size ∧
      (insert draft table).1.index.Holds (insert draft table).1.shelf
        (taken ++ gained draft (insert draft table).2) := by
  obtain ⟨rows, held, arranges⟩ := holds
  obtain ⟨order, placement, size, grown, listed, _, now⟩ :=
    insert_arranges arranges total readable hasKey
  exact ⟨order, placement, size, grown, listed, now⟩

/-- Only entries with a user key are taken in. -/
theorem insert_userKey (table : HashedSkipTable) (draft : Draft) {entry : Bytes}
    (member : entry ∈ gained draft (insert draft table).2) :
    ∃ userKey, entryUserKey entry = .ok userKey := by
  rcases Table.asWriter_cases .hashedSkipLists _ table with
    ⟨failure, _, kept⟩ | ⟨gate, _, _, _, answer⟩
  · rw [insert, kept] at member
    cases member
  · rw [insert, answer] at member
    cases offered : offer { table with gate } draft.bytes with
    | error failure =>
      simp only [offered, gained] at member
      cases member
    | ok offer =>
      simp only [HashedSkipTable.offer, bind_eq_ok] at offered
      obtain ⟨userKey, cut, _⟩ := offered
      cases gained_eq member
      exact ⟨userKey, cut⟩

theorem sortedHandles_eq (arranges : table.index.Arranges table.shelf rows held taken) :
    table.sortedHandles = mergeRuns table.shelf.compareHandles
      (table.index.buckets.keys.map fun bucket => handlesOf (rows bucket)) := by
  have runs : table.index.buckets.values.mapM (·.handles table.index.nodes)
      = .ok (table.index.buckets.keys.map fun bucket => handlesOf (rows bucket)) := by
    rw [Sparse.values, Sparse.keys, List.mapM_map, List.map_map]
    refine mapM_eq_map ?_
    intro cell member
    have linked := arranges.1.linked cell.1
    rw [HashedSkipIndex.Links, Sparse.get?_of_mem member] at linked
    exact linked.handles_eq arranges.2
  simp only [sortedHandles, runs, bind, Except.bind]

theorem sortedHandles_holds (holds : table.index.Holds table.shelf taken)
    (total : table.shelf.order.TotalOn keys) (readable : ∀ entry ∈ taken, HasKey keys entry)
    (untied : table.shelf.order.Untied taken) :
    ∃ handles entries, table.sortedHandles = .ok handles ∧ table.shelf.Reads handles entries ∧
      table.shelf.order.Sorted entries ∧ entries.Perm taken := by
  obtain ⟨rows, held, arranges⟩ := holds
  rw [sortedHandles_eq arranges]
  exact arranges.1.merged total readable untied

theorem contains_eq (arranges : table.index.Arranges table.shelf rows held taken)
    (total : table.shelf.order.TotalOn keys) (readable : ∀ entry ∈ taken, HasKey keys entry)
    {target userKey : Bytes} (isKey : keys target) (cut : userKeyOf target = .ok userKey)
    (place : table.index.bucketOf userKey = .ok bucket) :
    ∃ answer, table.contains target = .ok answer ∧ (answer = true ↔
      ∃ entry ∈ held bucket, table.shelf.order.compareEntryKey entry target = .ok .eq) := by
  have linked := arranges.1.linked bucket
  simp only [contains, cut, HashedSkipIndex.listOf, place, bind, Except.bind, pure, Except.pure]
  cases present : table.index.buckets.get? bucket with
  | none => exact ⟨false, rfl, by simp [arranges.1.vacant bucket present]⟩
  | some list =>
    rw [HashedSkipIndex.Links, present] at linked
    exact linked.contains_eq arranges.2 total (arranges.1.reads bucket)
      (fun entry member => readable entry (arranges.1.mem_iff.mpr ⟨bucket, member⟩))
      (arranges.1.sorted bucket) isKey

theorem listMoves_follows (arranges : table.index.Arranges table.shelf rows held taken)
    (total : table.shelf.order.TotalOn keys) (readable : ∀ entry ∈ taken, HasKey keys entry)
    (bucket : Nat) :
    (listMoves table bucket).Follows table.shelf.order (held bucket) (nodeAt (rows bucket)) :=
  (arranges.1.linked bucket).follows arranges.2 total (arranges.1.reads bucket)
    (fun entry member => readable entry (arranges.1.mem_iff.mpr ⟨bucket, member⟩))
    (arranges.1.sorted bucket)

end HashedSkipTable

end WriteBuffer
