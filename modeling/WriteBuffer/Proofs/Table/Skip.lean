import Mathlib
import WriteBuffer.Proofs.SkipList.Cursor
import WriteBuffer.Proofs.SkipList.Insert
import WriteBuffer.Proofs.SkipList.Splice
import WriteBuffer.Proofs.Table.Basic
import WriteBuffer.Table.Skip

/-!
Tables with one skip list. The list holds the entries that were taken in, in order
(`SkipIndex.Holds`), and an insert adds its entry to them or changes nothing, while every row stays a
row (`SkipTable.insert_arranges`).
-/
namespace WriteBuffer

variable {keys : Bytes → Prop} {taken : List Bytes}

namespace SkipIndex

/-- The rows of an index name the given entries in order, which are those that were taken in. -/
structure Arranges (index : SkipIndex) (shelf : Shelf) (rows : List Row) (entries taken : List Bytes) :
    Prop where
  linked : index.list.LinkedAs index.nodes rows
  tallied : index.nodes.Tallied
  reads : shelf.Reads (handlesOf rows) entries
  sorted : shelf.order.Sorted entries
  all : entries.Perm taken

/-- The list of an index holds exactly the entries that were taken in, in order. -/
def Holds (index : SkipIndex) (shelf : Shelf) (taken : List Bytes) : Prop :=
  ∃ rows entries, index.Arranges shelf rows entries taken

theorem holds_empty (shelf : Shelf) (heights : Heights) : (empty heights).Holds shelf [] :=
  ⟨[], [], SkipList.linkedAs_nil _ (by decide), ChunkStore.tallied_empty, rfl, .nil, .refl _⟩

theorem Arranges.keeps {index : SkipIndex} {shelf new : Shelf} {rows : List Row}
    {entries : List Bytes} (arranges : index.Arranges shelf rows entries taken)
    (order : new.order = shelf.order) (keeps : shelf.arena.Keeps new.arena) :
    index.Arranges new rows entries taken where
  linked := arranges.linked
  tallied := arranges.tallied
  reads := arranges.reads.keeps keeps
  sorted := order ▸ arranges.sorted
  all := arranges.all

theorem Holds.keeps {index : SkipIndex} {shelf new : Shelf} (holds : index.Holds shelf taken)
    (order : new.order = shelf.order) (keeps : shelf.arena.Keeps new.arena) :
    index.Holds new taken := by
  obtain ⟨rows, entries, arranges⟩ := holds
  exact ⟨rows, entries, arranges.keeps order keeps⟩

theorem Arranges.follows {index : SkipIndex} {shelf : Shelf} {rows : List Row} {entries : List Bytes}
    (arranges : index.Arranges shelf rows entries taken) (total : shelf.order.TotalOn keys)
    (readable : ∀ entry ∈ taken, HasKey keys entry) :
    (index.moves shelf).Follows shelf.order entries (nodeAt rows) :=
  arranges.linked.follows arranges.tallied total arranges.reads
    (fun entry member => readable entry (arranges.all.mem_iff.mp member)) arranges.sorted

def entries (index : SkipIndex) (shelf : Shelf) : Except Failure (List Bytes) := do
  (← index.list.handles index.nodes).mapM shelf.arena.get

theorem Holds.entries_eq {index : SkipIndex} {shelf : Shelf} (holds : index.Holds shelf taken) :
    ∃ entries, index.entries shelf = .ok entries ∧ entries.Perm taken := by
  obtain ⟨rows, entries, linked, tallied, reads, _, perm⟩ := holds
  refine ⟨entries, ?_, perm⟩
  simp only [SkipIndex.entries, linked.handles_eq tallied, bind, Except.bind, reads.mapM_eq]

theorem Holds.contains_eq {index : SkipIndex} {shelf : Shelf} (holds : index.Holds shelf taken)
    (total : shelf.order.TotalOn keys) (readable : ∀ entry ∈ taken, HasKey keys entry)
    {target : Bytes} (held : keys target) :
    ∃ answer, index.list.contains index.nodes shelf target = .ok answer ∧
      (answer = true ↔ ∃ entry ∈ taken, shelf.order.compareEntryKey entry target = .ok .eq) := by
  obtain ⟨rows, entries, linked, tallied, reads, sorted, perm⟩ := holds
  obtain ⟨answer, found, exactly⟩ := linked.contains_eq tallied total reads
    (fun entry member => readable entry (perm.mem_iff.mp member)) sorted held
  refine ⟨answer, found, exactly.trans ?_⟩
  simp only [perm.mem_iff]

theorem link_empty {shelf : Shelf} {handle : Handle} {entry : Bytes} (heights : Heights)
    (read : shelf.arena.get handle = .ok entry) :
    ∃ index, (empty heights).link shelf handle = .ok index := by
  have vacant : (empty heights).list.Vacant := ⟨rfl, rfl⟩
  have found := vacant.spliceFor_eq .empty shelf entry
  obtain ⟨inserted, done⟩ := SkipList.insertAt_succeeds found heights handle fun node =>
    (ChunkStore.push_empty node).imp fun _ pushed => ⟨0, pushed⟩
  refine ⟨(empty heights).grown inserted, bind_eq_ok.mpr ⟨inserted, ?_, rfl⟩⟩
  exact bind_eq_ok.mpr ⟨entry, read, bind_eq_ok.mpr ⟨[none], found, done⟩⟩

theorem link_empty_holds {shelf : Shelf} {handle : Handle} {entry : Bytes} {heights : Heights}
    {index : SkipIndex} (linked : (empty heights).link shelf handle = .ok index)
    (read : shelf.arena.get handle = .ok entry) : index.Holds shelf [entry] := by
  have start : (empty heights).list.LinkedAs .empty ([] ++ []) :=
    SkipList.linkedAs_nil .empty (by decide)
  have vacant : (empty heights).list.Vacant := ⟨rfl, rfl⟩
  simp only [link, SkipList.insert, bind_eq_ok, pure, Except.pure, Except.ok.injEq] at linked
  obtain ⟨⟨nodes, list, height⟩, ⟨_, readAgain, splice, found, done⟩, rfl⟩ := linked
  obtain rfl := Except.ok.inj (read.symm.trans readAgain)
  obtain rfl := Except.ok.inj ((vacant.spliceFor_eq _ _ _).symm.trans found)
  obtain ⟨new, _, longer, _, tally, _⟩ := start.insertAt_ok ChunkStore.tallied_empty done
  exact ⟨[(new, handle)], [entry], longer, tally, by simp [Shelf.Reads, read],
    List.pairwise_singleton .., .refl _⟩

end SkipIndex

namespace SkipTable

variable {table : SkipTable} {draft : Draft}

/-- An insert adds its entry or changes nothing, and every row stays a row. -/
theorem insert_arranges {rows : List Row} {entries : List Bytes}
    (arranges : table.index.Arranges table.shelf rows entries taken)
    (total : table.shelf.order.TotalOn keys) (readable : ∀ entry ∈ taken, HasKey keys entry)
    (hasKey : ∀ entry ∈ gained draft (insert draft table).2, HasKey keys entry) :
    (insert draft table).1.shelf.order = table.shelf.order ∧
      ∃ grown listed, rows ⊆ grown ∧
        (insert draft table).1.index.Arranges (insert draft table).1.shelf grown listed
          (taken ++ gained draft (insert draft table).2) := by
  rcases Table.asWriter_takeIn .skipList draft _ _ table with
    ⟨failure, failed, order, keeps, index⟩ |
      ⟨gate, splice, published, changed, _, spliced, stored, done, inserted, shelf, index, _⟩
  · rw [insert, failed, index, gained, List.append_nil]
    exact ⟨order, rows, entries, fun _ member => member, arranges.keeps order keeps⟩
  · rw [insert] at hasKey ⊢
    rw [inserted] at hasKey ⊢
    rw [← shelf, ← index]
    obtain ⟨arena, added, rfl⟩ := Table.publish_ok stored
    obtain ⟨read, keeps⟩ := Arena.get_publish added
    simp only [bind_eq_ok, pure, Except.pure, Except.ok.injEq] at done
    obtain ⟨⟨nodes, list, height⟩, linked, rfl⟩ := done
    refine ⟨rfl, ?_⟩
    obtain ⟨first, rest, smaller, greater, gap, ⟨refused, _⟩ | ⟨found, above⟩⟩ :=
      arranges.linked.spliceFor_cases arranges.tallied total arranges.reads
        (fun entry member => readable entry (arranges.all.mem_iff.mp member)) arranges.sorted
        (hasKey draft.bytes (by simp [gained]))
    · cases refused.symm.trans spliced
    · obtain rfl := Except.ok.inj (found.symm.trans spliced)
      obtain ⟨new, _, longer, _, tally, _⟩ :=
        SkipList.LinkedAs.insertAt_ok (gap.rows ▸ arranges.linked) arranges.tallied linked
      refine ⟨_, _, gap.subset new draft.handle, longer, tally, gap.filled keeps read,
        gap.sorted arranges.sorted above, ?_⟩
      refine List.perm_middle.trans ((List.Perm.cons _ (gap.entries ▸ arranges.all)).trans ?_)
      exact (List.perm_append_singleton ..).symm

theorem insert_holds (holds : table.index.Holds table.shelf taken)
    (total : table.shelf.order.TotalOn keys) (readable : ∀ entry ∈ taken, HasKey keys entry)
    (hasKey : ∀ entry ∈ gained draft (insert draft table).2, HasKey keys entry) :
    (insert draft table).1.shelf.order = table.shelf.order ∧
      (insert draft table).1.index.Holds (insert draft table).1.shelf
        (taken ++ gained draft (insert draft table).2) := by
  obtain ⟨rows, entries, arranges⟩ := holds
  obtain ⟨order, grown, listed, _, now⟩ := insert_arranges arranges total readable hasKey
  exact ⟨order, grown, listed, now⟩

end SkipTable

end WriteBuffer
