import Mathlib
import WriteBuffer.Proofs.Cursor.Following
import WriteBuffer.Proofs.Storage

/-!
Handles and nodes in the order of the entries they name. What splits the entries splits the handles
(`Shelf.Reads.split`) and the rows of a list (`Shelf.Reads.split_rows`), and an entry that ties with
none of them belongs in a gap between two rows (`Shelf.Reads.ties_or_gap`).
-/
namespace WriteBuffer

/-- A node with the handle it holds. -/
abbrev Row := NodeId × Handle

abbrev ids (rows : List Row) : List NodeId := rows.map Prod.fst

abbrev handlesOf (rows : List Row) : List Handle := rows.map Prod.snd

/-- What holds between any two values, in both directions, holds after one of them was changed, if it
holds between the new one and all others. -/
theorem pairwise_update {ι α : Type} [DecidableEq ι] {R : ι → ι → α → α → Prop}
    (symm : ∀ {a b x y}, R a b x y → R b a y x) {values : ι → α} {changed : ι} {new : α}
    (here : ∀ other ≠ changed, R changed other new (values other))
    (elsewhere : ∀ {a b}, a ≠ b → R a b (values a) (values b)) {a b : ι} (different : a ≠ b) :
    R a b (Function.update values changed new a) (Function.update values changed new b) := by
  by_cases sameA : a = changed
  · subst sameA
    rw [Function.update_self, Function.update_of_ne different.symm]
    exact here b different.symm
  · rw [Function.update_of_ne sameA]
    by_cases sameB : b = changed
    · subst sameB
      rw [Function.update_self]
      exact symm (here a different)
    · rw [Function.update_of_ne sameB]
      exact elsewhere different

/-- The node at an index of a list, if the index is one of it. -/
def nodeAt (rows : List Row) (at? : Option Nat) : Option NodeId := at?.bind ((ids rows)[·]?)

/-- Where no row is, there is no node. -/
theorem nodeAt_inside {rows : List Row} {entries : List Bytes}
    (same : rows.length = entries.length) (index : Nat) :
    nodeAt rows (inside entries index) = (ids rows)[index]? := by
  by_cases within : index < entries.length
  · simp [inside, within, nodeAt]
  · have outside : rows.length ≤ index := by omega
    simp [inside, within, nodeAt, outside]

theorem nodeAt_append (first rest : List Row) :
    (ids (first ++ rest))[first.length]? = (ids rest).head? := by
  rw [ids, List.map_append, List.getElem?_append_right (by simp)]
  simp [List.head?_eq_getElem?]

/-- The node in front of an index is the last one of the rows in front. -/
theorem nodeAt_pred (first rest : List Row) :
    nodeAt (first ++ rest) (if first.length = 0 then none else some (first.length - 1))
      = (ids first).getLast? := by
  rw [List.getLast?_eq_getElem?]
  by_cases empty : first.length = 0
  · have none : first = [] := List.length_eq_zero_iff.mp empty
    simp [none, nodeAt]
  · simp only [empty, if_false, nodeAt, Option.bind_some, ids, List.map_append, List.length_map]
    rw [List.getElem?_append_left (by simp; omega)]

namespace Shelf

variable {shelf : Shelf} {rows : List Row} {entries front back : List Bytes}
  {keys : Bytes → Prop} {entry key target : Bytes}

/-- Handles of entries that are split by a target are split by it. -/
theorem Reads.split {handles : List Handle} (reads : shelf.Reads handles (front ++ back))
    (split : shelf.order.Splits target front back) :
    ∃ first rest, handles = first ++ rest ∧ shelf.Reads first front ∧ shelf.Reads rest back ∧
      (∀ handle ∈ first, shelf.isBelowKey target handle = .ok true) ∧
      ∀ handle ∈ rest, shelf.isBelowKey target handle = .ok false := by
  rw [Reads, List.map_append] at reads
  obtain ⟨first, rest, rfl, readFirst, readRest⟩ := List.map_eq_append_iff.mp reads
  refine ⟨first, rest, rfl, readFirst, readRest, ?_, ?_⟩
  · intro handle member
    obtain ⟨entry, inFront, read⟩ := Reads.exists_entry readFirst member
    rw [isBelowKey, compareKey_eq read, split.below entry inFront]
    rfl
  · intro handle member
    obtain ⟨entry, inBack, read⟩ := Reads.exists_entry readRest member
    obtain ⟨ordering, answer, notLess⟩ := split.notBelow entry inBack
    rw [isBelowKey, compareKey_eq read, answer]
    cases ordering with
    | lt => exact absurd rfl notLess
    | eq | gt => rfl

theorem Reads.refuses {handles : List Handle} {failure : Failure} (reads : shelf.Reads handles entries)
    (filled : entries ≠ [])
    (fails : ∀ entry ∈ entries, shelf.order.compareEntryKey entry target = .error failure) :
    handles ≠ [] ∧ ∀ handle ∈ handles, shelf.isBelowKey target handle = .error failure := by
  constructor
  · rintro rfl
    exact filled (List.length_eq_zero_iff.mp reads.length_eq.symm)
  · intro handle member
    obtain ⟨entry, stored, read⟩ := reads.exists_entry member
    rw [isBelowKey, compareKey_eq read, fails entry stored]
    rfl

/-- Rows of entries that are split by a target are split by it. -/
theorem Reads.split_rows (reads : shelf.Reads (handlesOf rows) (front ++ back))
    (split : shelf.order.Splits target front back) :
    ∃ first rest, rows = first ++ rest ∧ shelf.Reads (handlesOf first) front ∧
      shelf.Reads (handlesOf rest) back ∧
      (∀ row ∈ first, shelf.isBelowKey target row.2 = .ok true) ∧
      ∀ row ∈ rest, shelf.isBelowKey target row.2 = .ok false := by
  obtain ⟨_, _, parts, readFront, readBack, below, notBelow⟩ := reads.split split
  obtain ⟨first, rest, rfl, rfl, rfl⟩ := List.map_eq_append_iff.mp parts
  exact ⟨first, rest, rfl, readFront, readBack,
    fun row member => below row.2 (List.mem_map_of_mem member),
    fun row member => notBelow row.2 (List.mem_map_of_mem member)⟩

theorem Reads.refuses_rows {failure : Failure} (reads : shelf.Reads (handlesOf rows) entries)
    (filled : entries ≠ [])
    (fails : ∀ entry ∈ entries, shelf.order.compareEntryKey entry target = .error failure) :
    rows ≠ [] ∧ ∀ row ∈ rows, shelf.isBelowKey target row.2 = .error failure := by
  obtain ⟨some, refused⟩ := reads.refuses filled fails
  exact ⟨fun none => some (by simp [none]),
    fun row member => refused row.2 (List.mem_map_of_mem member)⟩

theorem Reads.cons_cases (reads : shelf.Reads (handlesOf rows) entries) :
    (rows = [] ∧ entries = []) ∨ ∃ row others first rest, rows = row :: others ∧
      entries = first :: rest ∧ shelf.arena.get row.2 = .ok first := by
  cases rows with
  | nil => exact .inl ⟨rfl, by simpa using reads.length_eq.symm⟩
  | cons row others =>
    cases entries with
    | nil => simp [Reads] at reads
    | cons first rest =>
      simp only [Reads, List.map_cons, List.cons.injEq] at reads
      exact .inr ⟨row, others, first, rest, rfl, rfl, reads.1⟩

/-- What is at an index of some rows, or nothing, is somewhere among more rows. -/
theorem Reads.stays {new : Shelf} {more : List Row} {listed : List Bytes}
    (reads : shelf.Reads (handlesOf rows) entries) (now : new.Reads (handlesOf more) listed)
    (sub : rows ⊆ more) (keeps : shelf.arena.Keeps new.arena) (index : Nat) :
    ∃ reached, nodeAt rows (inside entries index) = nodeAt more (inside listed reached) ∧
      entries[index]? = listed[reached]? := by
  have size : rows.length = entries.length := by simpa using reads.length_eq
  have sizeNow : more.length = listed.length := by simpa using now.length_eq
  rw [nodeAt_inside size]
  by_cases within : index < rows.length
  · obtain ⟨reached, inMore, same⟩ := List.getElem_of_mem (sub (List.getElem_mem within))
    refine ⟨reached, by simp [nodeAt_inside sizeNow, inMore, within, same], ?_⟩
    have before := reads.getElem? index
    have after := now.getElem? reached
    simp only [List.getElem?_map, List.getElem?_eq_getElem within, Option.map_some,
      List.getElem?_eq_getElem inMore, same,
      List.getElem?_eq_getElem (Nat.lt_of_lt_of_eq within size),
      List.getElem?_eq_getElem (Nat.lt_of_lt_of_eq inMore sizeNow), Option.some.injEq]
      at before after
    rw [List.getElem?_eq_getElem (Nat.lt_of_lt_of_eq within size),
      List.getElem?_eq_getElem (Nat.lt_of_lt_of_eq inMore sizeNow),
      Except.ok.inj ((keeps before).symm.trans after)]
  · refine ⟨listed.length, ?_, ?_⟩
    · simp [inside, nodeAt, within]
    · rw [List.getElem?_eq_none (by omega), List.getElem?_eq_none (Nat.le_refl _)]

/-- The rows, and the entries they name, between which an entry belongs. -/
structure Gap (shelf : Shelf) (entry : Bytes) (rows : List Row) (entries : List Bytes)
    (first rest : List Row) (front back : List Bytes) : Prop where
  rows : rows = first ++ rest
  entries : entries = front ++ back
  readFront : shelf.Reads (handlesOf first) front
  readBack : shelf.Reads (handlesOf rest) back
  isBelow : ∀ row ∈ first, shelf.isBelowEntry entry row.2 = .ok true
  notBelow : ∀ row ∈ rest, shelf.isBelowEntry entry row.2 = .ok false
  below : ∀ other ∈ front, shelf.order.Below other entry

/-- Either the first row that is not below an entry ties with it, or all of those are above. -/
theorem Reads.ties_or_gap (total : shelf.order.TotalOn keys)
    (reads : shelf.Reads (handlesOf rows) entries) (readable : ∀ other ∈ entries, HasKey keys other)
    (sorted : shelf.order.Sorted entries) (hasKey : HasKey keys entry) :
    ∃ first rest front back, shelf.Gap entry rows entries first rest front back ∧
      ((∃ other ∈ back.head?, shelf.order.Ties other entry) ∨
        ∀ other ∈ back, shelf.order.Below entry other) := by
  obtain ⟨key, cut, held⟩ := hasKey
  obtain ⟨front, back, rfl, split, below, rest⟩ := total.ties_or_parts cut held readable sorted
  obtain ⟨first, others, rfl, readFront, readBack, isBelow, notBelow⟩ := reads.split_rows split
  refine ⟨first, others, front, back, ⟨rfl, rfl, readFront, readBack, ?_, ?_, below⟩, rest⟩
  · intro row member
    rw [isBelowEntry_eq cut]
    exact isBelow row member
  · intro row member
    rw [isBelowEntry_eq cut]
    exact notBelow row member

namespace Gap

variable {first rest : List Row} {handle : Handle} {id : NodeId}

/-- The rows and the entries after the entry was put into its gap. -/
theorem filled (gap : shelf.Gap entry rows entries first rest front back) {new : Shelf}
    (keeps : shelf.arena.Keeps new.arena) (read : new.arena.get handle = .ok entry) :
    new.Reads (handlesOf (first ++ (id, handle) :: rest)) (front ++ entry :: back) := by
  have readFront := gap.readFront.keeps keeps
  have readBack := gap.readBack.keeps keeps
  simp only [Reads, List.map_append, List.map_cons] at readFront readBack ⊢
  rw [readFront, readBack, read]

theorem subset (gap : shelf.Gap entry rows entries first rest front back) (id : NodeId)
    (handle : Handle) : rows ⊆ first ++ (id, handle) :: rest := by
  rw [gap.rows]
  exact ((List.sublist_cons_self ..).append_left first).subset

/-- Every row of a bucket is a row of it after an entry was put into a gap in one of the buckets. -/
theorem subset_update {buckets : Nat → List Row} {bucket : Nat}
    (gap : shelf.Gap entry (buckets bucket) entries first rest front back) (id : NodeId)
    (handle : Handle) (other : Nat) :
    buckets other ⊆ Function.update buckets bucket (first ++ (id, handle) :: rest) other := by
  by_cases same : other = bucket
  · subst same
    rw [Function.update_self]
    exact gap.subset id handle
  · rw [Function.update_of_ne same]
    exact fun _ member => member

theorem sorted (gap : shelf.Gap entry rows entries first rest front back)
    (ordered : shelf.order.Sorted entries) (above : ∀ other ∈ back, shelf.order.Below entry other) :
    shelf.order.Sorted (front ++ entry :: back) := by
  rw [gap.entries] at ordered
  obtain ⟨sortedFront, sortedBack, across⟩ := List.pairwise_append.mp ordered
  refine List.pairwise_append.mpr ⟨sortedFront, List.pairwise_cons.mpr ⟨above, sortedBack⟩, ?_⟩
  intro other inFront later member
  rcases List.mem_cons.mp member with rfl | inBack
  · exact gap.below other inFront
  · exact across other inFront later inBack

end Gap

end Shelf

end WriteBuffer
