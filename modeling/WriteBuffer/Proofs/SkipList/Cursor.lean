import Mathlib
import WriteBuffer.Proofs.Cursor.Following
import WriteBuffer.Proofs.SkipList.Search
import WriteBuffer.SkipList.Cursor

/-!
Cursors over skip lists. A cursor over a list in which the entries stand in order follows them
(`SkipList.LinkedAs.follows`), although a step back has no link to go along and searches the list
anew; and a search for a key finds it if an entry has it (`SkipList.LinkedAs.contains_eq`).
-/
namespace WriteBuffer

namespace SkipList

variable {list : SkipList} {nodes : NodeStore} {rows : List Row} {shelf : Shelf}
  {entries : List Bytes} {keys : Bytes → Prop}

namespace LinkedAs

theorem entry_eq (linked : list.LinkedAs nodes rows) (reads : shelf.Reads (handlesOf rows) entries)
    {index : Nat} {found : Bytes} (located : entries[index]? = some found) :
    ∃ id, nodeAt rows (some index) = some id ∧ SkipList.entry nodes shelf id = .ok found := by
  have read := reads.getElem? index
  rw [located, List.getElem?_map, Option.map_map] at read
  obtain ⟨row, inRows, read⟩ := Option.map_eq_some_iff.mp read
  obtain ⟨node, stored, handle, _⟩ := linked.stored row (List.mem_of_getElem? inRows)
  refine ⟨row.1, by simp [nodeAt, inRows], ?_⟩
  simp only [SkipList.entry, node_eq stored, bind, Except.bind, handle]
  exact read

theorem next_eq (linked : list.LinkedAs nodes rows) {index : Nat} (within : index < rows.length) :
    ∃ id, nodeAt rows (some index) = some id ∧
      list.link nodes (some id) 0 = .ok (ids rows)[index + 1]? := by
  have parts : rows = rows.take (index + 1) ++ rows.drop (index + 1) :=
    (List.take_append_drop ..).symm
  have parted : list.LinkedAs nodes (rows.take (index + 1) ++ rows.drop (index + 1)) :=
    parts ▸ linked
  have onward := parted.link_behind
  have last : (ids (rows.take (index + 1))).getLast? = some rows[index].1 := by
    rw [List.take_succ_eq_append_getElem within, ids, List.map_append, List.map_singleton,
      List.getLast?_append, List.getLast?_singleton, Option.some_or]
  rw [last] at onward
  refine ⟨rows[index].1, by simp [nodeAt, within], ?_⟩
  rw [onward]
  simp [ids, List.head?_drop]

/-- A step back ends at the last node below. -/
theorem prev_eq (linked : list.LinkedAs nodes rows) (tallied : nodes.Tallied)
    (total : shelf.order.TotalOn keys) (reads : shelf.Reads (handlesOf rows) entries)
    (readable : ∀ entry ∈ entries, HasKey keys entry) (sorted : shelf.order.Sorted entries)
    {index : Nat} (within : index < entries.length) :
    list.seekBefore nodes (shelf.isBelowEntry entries[index])
      = .ok (nodeAt rows (if index = 0 then none else some (index - 1))) := by
  have parts : entries = entries.take index ++ entries[index] :: entries.drop (index + 1) := by
    rw [List.getElem_cons_drop, List.take_append_drop]
  obtain ⟨key, cut, held⟩ := readable entries[index] (List.getElem_mem within)
  have split : shelf.order.Splits key (entries.take index)
      (entries[index] :: entries.drop (index + 1)) := by
    rw [parts] at readable sorted
    exact total.splits_at cut readable sorted
  obtain ⟨first, rest, rfl, readFirst, _, below, notBelow⟩ := (parts ▸ reads).split_rows split
  have size : first.length = index := by
    have sizes := readFirst.length_eq
    rw [List.length_map, List.length_take] at sizes
    omega
  have found := linked.seekBefore_eq tallied
    (fun row member => (Shelf.isBelowEntry_eq cut row.2).trans (below row member))
    (fun row member => (Shelf.isBelowEntry_eq cut row.2).trans (notBelow row member))
  rw [found, ← nodeAt_pred first rest, size]

/-- A cursor over a list in which the entries stand in order follows them. -/
theorem follows (linked : list.LinkedAs nodes rows) (tallied : nodes.Tallied)
    (total : shelf.order.TotalOn keys) (reads : shelf.Reads (handlesOf rows) entries)
    (readable : ∀ entry ∈ entries, HasKey keys entry) (sorted : shelf.order.Sorted entries) :
    (list.moves nodes shelf).Follows shelf.order entries (nodeAt rows) := by
  have size : rows.length = entries.length := by simpa using reads.length_eq
  constructor
  · constructor
    · rfl
    · intro index within
      simp [moves, nodeAt, size, within]
    · intro index entry found
      obtain ⟨id, place, read⟩ := linked.entry_eq reads found
      simp only [moves, place, atPlace, read]
    · intro index within
      obtain ⟨id, place, onward⟩ := linked.next_eq (size ▸ within)
      simp only [moves, place, atPlace, onward, nodeAt_inside size]
    · intro index within
      obtain ⟨id, place, read⟩ := linked.entry_eq reads (List.getElem?_eq_getElem within)
      simp only [moves, place, atPlace, read, bind, Except.bind]
      exact linked.prev_eq tallied total reads readable sorted within
    · intro index _
      simpa [moves, ← size] using linked.length_le tallied
  · intro at?
    simp only [moves, linked.first_eq, nodeAt_inside size, List.head?_eq_getElem?]
  · intro at?
    simp only [moves, linked.last_eq tallied, nodeAt_inside size, List.getLast?_eq_getElem?,
      List.length_map, size]
  · intro at? target front back parts split
    obtain ⟨first, rest, rfl, readFirst, _, below, notBelow⟩ := (parts ▸ reads).split_rows split
    have sameSize : front.length = first.length := by simpa using readFirst.length_eq.symm
    simp only [moves, linked.seek_eq tallied below notBelow, nodeAt_inside size, sameSize,
      nodeAt_append]
  · rfl
  · exact ⟨rfl, rfl⟩
  · intro at? target failure filled fails
    obtain ⟨some, refused⟩ := reads.refuses_rows filled fails
    exact linked.seek_fails some refused

/-- A search for a key finds it exactly if an entry has a key equal to it. -/
theorem contains_eq (linked : list.LinkedAs nodes rows) (tallied : nodes.Tallied)
    (total : shelf.order.TotalOn keys) (reads : shelf.Reads (handlesOf rows) entries)
    (readable : ∀ entry ∈ entries, HasKey keys entry) (sorted : shelf.order.Sorted entries)
    {target : Bytes} (held : keys target) :
    ∃ answer, list.contains nodes shelf target = .ok answer ∧
      (answer = true ↔ ∃ entry ∈ entries, shelf.order.compareEntryKey entry target = .ok .eq) := by
  obtain ⟨front, back, rfl, split⟩ := total.splits held readable sorted
  obtain ⟨first, rest, rfl, _, readRest, below, notBelow⟩ := reads.split_rows split
  rw [total.exists_eq_iff held readable sorted split]
  simp only [contains, linked.seek_eq tallied below notBelow, bind, Except.bind]
  rcases readRest.cons_cases with ⟨rfl, rfl⟩ | ⟨row, others, next, later, rfl, rfl, read⟩
  · exact ⟨false, rfl, by simp⟩
  · obtain ⟨node, stored, handle, _⟩ := linked.stored row (by simp)
    obtain ⟨ordering, answer, _⟩ := split.notBelow next List.mem_cons_self
    simp only [ids, List.map_cons, List.head?_cons, node_eq stored, handle,
      Shelf.compareKey_eq read, answer, pure, Except.pure]
    exact ⟨ordering == .eq, rfl, by simp [answer]⟩

end LinkedAs

end SkipList

end WriteBuffer
