import Mathlib
import WriteBuffer.Proofs.Chain
import WriteBuffer.Proofs.Table.Basic
import WriteBuffer.Proofs.Table.Buckets
import WriteBuffer.Table.HashedChain

/-!
Tables with a sorted chain in each bucket. Each chain holds the entries of its bucket in order, and
all of them together what was taken in (`HashedChainIndex.Holds`). An insert adds its entry or
changes nothing, and every row stays in its bucket (`HashedChainTable.insert_arranges`).
-/
namespace WriteBuffer

variable {keys : Bytes → Prop} {taken : List Bytes} {rows : Nat → List Row}
  {held : Nat → List Bytes} {bucket : Nat}

namespace HashedChainIndex

variable {index new : HashedChainIndex} {shelf : Shelf}

/-- The chain of a bucket has exactly the given rows. -/
def Links (index : HashedChainIndex) (bucket : Nat) (rows : List Row) : Prop :=
  index.nodes.LinkedAs (index.heads.get? bucket) rows

/-- The chains of an index hold exactly the entries that were taken in, bucket by bucket. -/
def Arranges (index : HashedChainIndex) (shelf : Shelf) (rows : Nat → List Row)
    (held : Nat → List Bytes) (taken : List Bytes) : Prop :=
  Arranged shelf index.placement index.heads index.Links rows held taken ∧ index.nodes.Tallied

/-- An index holds exactly the entries that were taken in. -/
def Holds (index : HashedChainIndex) (shelf : Shelf) (taken : List Bytes) : Prop :=
  ∃ rows held, index.Arranges shelf rows held taken

/-- What relinking a chain changes. -/
structure Relinks (index new : HashedChainIndex) (bucket : Nat) (id : NodeId) (touched : List NodeId) :
    Prop where
  free : index.nodes.get? id = none
  placement : new.placement = index.placement
  size : new.heads.size = index.heads.size
  filled : (new.heads.get? bucket).isSome
  others : ∀ other ≠ bucket, new.heads.get? other = index.heads.get? other
  tallied : index.nodes.Tallied → new.nodes.Tallied
  frame : ∀ other, other ≠ id → other ∉ touched → new.nodes.get? other = index.nodes.get? other

/-- A node is put in front of all rows of a chain. -/
theorem relink_front {stored : ChainStore} {rest : List Row} {id : NodeId} {handle : Handle}
    (linked : index.Links bucket rest) (free : index.nodes.get? id = none)
    (pushed : index.nodes.push ⟨handle, (ids rest).head?⟩ = (stored, .ok id)) :
    let new := relink { index with nodes := stored } bucket none id
    new.Links bucket ((id, handle) :: rest) ∧ index.Relinks new bucket id (ids rest) := by
  obtain ⟨_, _, slots⟩ := ChunkStore.push_ok pushed
  have kept : ∀ other ∈ ids rest, stored.get? other = index.nodes.get? other := by
    intro other member
    rw [slots, if_neg]
    rintro rfl
    exact linked.notMem_of_free free member
  refine ⟨?_, free, rfl, rfl, by simp [relink], ?_, fun tallied => tallied.push pushed, ?_⟩
  · refine ChainStore.LinkedAs.insert (show ChainStore.LinkedAs _ _ ([] ++ rest) from linked)
      (linked.notMem_of_free free) ?_ ?_ ?_ ?_
    · simp [relink, slots]
    · simp [relink, ChainStore.linkAt]
    · intro other member
      rw [relink, kept other member]
    · intro place member notFirst
      rcases List.mem_cons.mp member with rfl | inRows
      · exact absurd rfl notFirst
      · obtain ⟨other, isRow, rfl⟩ := List.mem_map.mp inRows
        simp only [relink, ChainStore.linkAt, kept other isRow]
  · intro other different
    simp [relink, different]
  · intro other different _
    simp [relink, slots, different]

/-- A node is put behind some rows of a chain. -/
theorem relink_behind {stored : ChainStore} {first rest : List Row} {before id : NodeId}
    {handle : Handle} (linked : index.Links bucket (first ++ rest))
    (free : index.nodes.get? id = none)
    (pushed : index.nodes.push ⟨handle, (ids rest).head?⟩ = (stored, .ok id))
    (last : (ids first).getLast? = some before) :
    let new := relink { index with nodes := stored } bucket (some before) id
    new.Links bucket (first ++ (id, handle) :: rest) ∧
      index.Relinks new bucket id (ids (first ++ rest)) := by
  obtain ⟨_, _, slots⟩ := ChunkStore.push_ok pushed
  have kept : ∀ other ∈ ids (first ++ rest), stored.get? other = index.nodes.get? other := by
    intro other member
    rw [slots, if_neg]
    rintro rfl
    exact linked.notMem_of_free free member
  have inRows : before ∈ ids (first ++ rest) := by
    rw [ids, List.map_append]
    exact List.mem_append_left _ (List.mem_of_getLast? last)
  have different : id ≠ before := by
    rintro rfl
    exact linked.notMem_of_free free inRows
  obtain ⟨row, rowIn, isBefore⟩ := List.mem_map.mp inRows
  obtain ⟨node, found, _⟩ := linked.stored row rowIn
  rw [isBefore] at found
  refine ⟨?_, free, rfl, rfl, ?_, fun _ _ => rfl, fun tallied => (tallied.push pushed).update .., ?_⟩
  · refine linked.insert (linked.notMem_of_free free) ?_ ?_ ?_ ?_
    · simp [relink, slots, different]
    · simp [relink, last, ChainStore.linkAt, kept before inRows, found]
    · intro other member
      simp only [relink, ChunkStore.get?_update, kept other member]
      split
      · next same => rw [same, kept before inRows, found]; rfl
      · rfl
    · intro place member notLast
      rcases List.mem_cons.mp member with rfl | isPlace
      · rfl
      · obtain ⟨other, isRow, rfl⟩ := List.mem_map.mp isPlace
        have apart : other ≠ before := by
          rintro rfl
          exact notLast last.symm
        simp only [relink, ChainStore.linkAt, ChunkStore.get?_update, apart, if_false,
          kept other isRow]
  · have start := linked.start_eq
    cases first with
    | nil => cases last
    | cons row _ => simp [relink, start]
  · intro other isNew apart
    have notLast : other ≠ before := by
      rintro rfl
      exact apart inRows
    simp [relink, slots, isNew, notLast]

/-- A handle is linked in between the rows of its gap, on a node that was free. -/
theorem link_ok {handle : Handle} {first rest : List Row}
    (linked : index.Links bucket (first ++ rest))
    (done : index.link bucket ((ids first).getLast?, (ids rest).head?) handle = .ok new) :
    ∃ id, new.Links bucket (first ++ (id, handle) :: rest) ∧
      index.Relinks new bucket id (ids (first ++ rest)) := by
  simp only [link] at done
  cases pushed : index.nodes.push ⟨handle, (ids rest).head?⟩ with
  | mk stored answer =>
    cases answer with
    | error failure =>
      simp only [pushed] at done
      cases done
    | ok id =>
      simp only [pushed, Except.ok.injEq] at done
      have free := (ChunkStore.push_ok pushed).1
      refine ⟨id, ?_⟩
      cases last : (ids first).getLast? with
      | none =>
        obtain rfl : first = [] := by simpa using last
        rw [last] at done
        exact done ▸ relink_front linked free pushed
      | some before =>
        rw [last] at done
        exact done ▸ relink_behind linked free pushed last

theorem Holds.keeps {next : Shelf} (holds : index.Holds shelf taken)
    (order : next.order = shelf.order) (keeps : shelf.arena.Keeps next.arena) :
    index.Holds next taken := by
  obtain ⟨rows, held, arranged, tallied⟩ := holds
  exact ⟨rows, held, arranged.keeps order keeps, tallied⟩

end HashedChainIndex

namespace HashedChainTable

variable {table : HashedChainTable} {draft : Draft}

theorem create_holds {made : HashedChainTable} {shelf : Shelf} {placement : Placement}
    {buckets hugePageSize : Nat}
    (done : create shelf placement buckets hugePageSize = .ok made) :
    made.shelf = shelf ∧ made.index.placement = placement ∧ made.index.heads.size = buckets ∧
      made.index.Holds shelf [] := by
  simp only [create, bind_eq_ok, pure, Except.pure, Except.ok.injEq] at done
  obtain ⟨_, _, rfl⟩ := done
  have holds : HashedChainIndex.Holds { placement, heads := .empty buckets } shelf [] :=
    ⟨_, _, Arranged.nothing shelf placement buckets fun _ => ChainStore.linkedAs_nil _,
      ChunkStore.tallied_empty⟩
  split <;> exact ⟨rfl, rfl, rfl, holds⟩

/-- An insert adds its entry or changes nothing, and every row stays in its bucket. -/
theorem insert_arranges (arranges : table.index.Arranges table.shelf rows held taken)
    (total : table.shelf.order.TotalOn keys) (readable : ∀ entry ∈ taken, HasKey keys entry)
    (hasKey : ∀ entry ∈ gained draft (insert draft table).2, HasKey keys entry) :
    (insert draft table).1.shelf.order = table.shelf.order ∧
      (insert draft table).1.index.placement = table.index.placement ∧
      (insert draft table).1.index.heads.size = table.index.heads.size ∧
      ∃ grown listed, (∀ bucket, rows bucket ⊆ grown bucket) ∧
        (insert draft table).1.index.Arranges (insert draft table).1.shelf grown listed
          (taken ++ gained draft (insert draft table).2) := by
  obtain ⟨arranged, tallied⟩ := arranges
  rcases Table.asWriter_takeIn .hashedChains draft _ _ table with
    ⟨failure, failed, order, keeps, index⟩ |
      ⟨gate, target, published, changed, _, asked, stored, done, inserted, shelf, index, _⟩
  · rw [insert, failed, index, gained, List.append_nil]
    exact ⟨order, rfl, rfl, rows, held, fun _ _ member => member, arranged.keeps order keeps, tallied⟩
  · rw [insert] at hasKey ⊢
    rw [inserted] at hasKey ⊢
    rw [← shelf, ← index]
    simp only [placeFor, bind_eq_ok, pure, Except.pure, Except.ok.injEq] at asked done
    obtain ⟨userKey, cut, bucket, place, chain, read, gap, found, rfl⟩ := asked
    obtain ⟨arena, added, rfl⟩ := Table.publish_ok stored
    obtain ⟨linked, relinked, rfl⟩ := done
    obtain ⟨readNew, keeps⟩ := Arena.get_publish added
    obtain rfl := Except.ok.inj (((arranged.linked bucket).chain_eq tallied).symm.trans read)
    obtain ⟨first, rest, smaller, greater, isGap, ⟨refused, _⟩ | ⟨accepted, above⟩⟩ :=
      ChainStore.gapIn_cases total (arranged.reads bucket)
        (fun entry member => readable entry (arranged.mem_iff.mpr ⟨bucket, member⟩))
        (arranged.sorted bucket) (hasKey draft.bytes (by simp [gained]))
    · cases refused.symm.trans found
    · obtain rfl := Except.ok.inj (accepted.symm.trans found)
      obtain ⟨id, links, relinks⟩ :=
        HashedChainIndex.link_ok (isGap.rows ▸ arranged.linked bucket) relinked
      have linkedThere : ∀ other ≠ bucket, linked.Links other (rows other) := by
        intro other different
        have old := arranged.linked other
        rw [HashedChainIndex.Links] at old ⊢
        rw [relinks.others other different]
        refine old.frame ?_
        intro node inOther
        refine relinks.frame node ?_ ?_
        · rintro rfl
          exact old.notMem_of_free relinks.free inOther
        · rw [← isGap.rows]
          exact arranged.disjoint different node inOther
      have rearranged := arranged.insert isGap above
        (show ({ table.shelf with arena } : Shelf).order = table.shelf.order from rfl) keeps readNew
        (fun other => (arranged.linked other).notMem_of_free relinks.free) cut place
        relinks.size relinks.filled relinks.others links linkedThere
      rw [← relinks.placement] at rearranged
      exact ⟨rfl, relinks.placement, relinks.size, _, _, isGap.subset_update id draft.handle,
        rearranged, relinks.tallied tallied⟩

theorem insert_holds (holds : table.index.Holds table.shelf taken)
    (total : table.shelf.order.TotalOn keys) (readable : ∀ entry ∈ taken, HasKey keys entry)
    (hasKey : ∀ entry ∈ gained draft (insert draft table).2, HasKey keys entry) :
    (insert draft table).1.shelf.order = table.shelf.order ∧
      (insert draft table).1.index.placement = table.index.placement ∧
      (insert draft table).1.index.heads.size = table.index.heads.size ∧
      (insert draft table).1.index.Holds (insert draft table).1.shelf
        (taken ++ gained draft (insert draft table).2) := by
  obtain ⟨rows, held, arranges⟩ := holds
  obtain ⟨order, placement, size, grown, listed, _, now⟩ :=
    insert_arranges arranges total readable hasKey
  exact ⟨order, placement, size, grown, listed, now⟩

theorem insert_userKey (table : HashedChainTable) (draft : Draft) {entry : Bytes}
    (member : entry ∈ gained draft (insert draft table).2) :
    ∃ userKey, entryUserKey entry = .ok userKey := by
  rcases Table.asWriter_takeIn .hashedChains draft _ _ table with
    ⟨failure, failed, _⟩ | ⟨gate, _, _, _, _, asked, _⟩
  · rw [insert, failed] at member
    cases member
  · simp only [placeFor, bind_eq_ok] at asked
    obtain ⟨userKey, cut, _⟩ := asked
    cases gained_eq member
    exact ⟨userKey, cut⟩

theorem sortedHandles_eq (arranges : table.index.Arranges table.shelf rows held taken) :
    table.sortedHandles = mergeRuns table.shelf.compareHandles
      (table.index.heads.keys.map fun bucket => handlesOf (rows bucket)) := by
  have runs : table.index.heads.values.mapM (fun head => table.index.nodes.chain (some head))
      = .ok (table.index.heads.keys.map rows) := by
    rw [Sparse.values, Sparse.keys, List.mapM_map, List.map_map]
    refine mapM_eq_map ?_
    intro cell member
    have linked := arranges.1.linked cell.1
    rw [HashedChainIndex.Links, Sparse.get?_of_mem member] at linked
    exact linked.chain_eq arranges.2
  simp only [sortedHandles, runs, bind, Except.bind, List.map_map]
  rfl

theorem sortedHandles_holds (holds : table.index.Holds table.shelf taken)
    (total : table.shelf.order.TotalOn keys) (readable : ∀ entry ∈ taken, HasKey keys entry)
    (untied : table.shelf.order.Untied taken) :
    ∃ handles entries, table.sortedHandles = .ok handles ∧ table.shelf.Reads handles entries ∧
      table.shelf.order.Sorted entries ∧ entries.Perm taken := by
  obtain ⟨rows, held, arranges⟩ := holds
  rw [sortedHandles_eq arranges]
  exact arranges.1.merged total readable untied

/-- A search for a key finds it exactly if an entry in the bucket of its user key is equal to it. -/
theorem contains_eq (arranges : table.index.Arranges table.shelf rows held taken)
    (total : table.shelf.order.TotalOn keys) (readable : ∀ entry ∈ taken, HasKey keys entry)
    {target userKey : Bytes} (isKey : keys target) (cut : userKeyOf target = .ok userKey)
    (place : table.index.bucketOf userKey = .ok bucket) :
    ∃ answer, table.contains target = .ok answer ∧ (answer = true ↔
      ∃ entry ∈ held bucket, table.shelf.order.compareEntryKey entry target = .ok .eq) := by
  obtain ⟨arranged, tallied⟩ := arranges
  have readable : ∀ entry ∈ held bucket, HasKey keys entry := fun entry member =>
    readable entry (arranged.mem_iff.mpr ⟨bucket, member⟩)
  obtain ⟨front, back, parts, split⟩ := total.splits isKey readable (arranged.sorted bucket)
  have reads := arranged.reads bucket
  have sorted := arranged.sorted bucket
  rw [parts] at reads sorted readable
  obtain ⟨first, rest, rows, _, readRest, below, notBelow⟩ := reads.split_rows split
  have chain : table.index.chainOf bucket = .ok (first ++ rest) :=
    rows ▸ (arranged.linked bucket).chain_eq tallied
  rw [parts, total.exists_eq_iff isKey readable sorted split]
  simp only [contains, cut, place, chain, ChainStore.seekIn_eq below notBelow, bind, Except.bind]
  rcases readRest.cons_cases with ⟨rfl, rfl⟩ | ⟨row, others, next, later, rfl, rfl, read⟩
  · exact ⟨false, rfl, by simp⟩
  · obtain ⟨ordering, answer, _⟩ := split.notBelow next List.mem_cons_self
    simp only [List.head?_cons, Shelf.compareKey_eq read, answer, pure, Except.pure]
    exact ⟨ordering == .eq, rfl, by simp [answer]⟩

/-- Cursors along the chain of a bucket follow what the bucket holds. -/
theorem listMoves_follows (arranges : table.index.Arranges table.shelf rows held taken)
    (bucket : Nat) :
    (listMoves table bucket).Follows table.shelf.order (held bucket) (nodeAt (rows bucket)) :=
  (arranges.1.linked bucket).follows arranges.2 (arranges.1.reads bucket)

end HashedChainTable

end WriteBuffer
