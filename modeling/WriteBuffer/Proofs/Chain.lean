import Mathlib
import WriteBuffer.Chain
import WriteBuffer.Proofs.Links
import WriteBuffer.Proofs.Rows

/-!
Searches and inserts in sorted chains. The links of a chain lead through its rows
(`ChainStore.LinkedAs`), which are read in full before anything is searched in them. A cursor over a
chain in which the entries stand in order follows them (`ChainStore.LinkedAs.follows`), and the gap
for an entry is found unless the chain has one that ties with it (`ChainStore.gapIn_cases`).
-/
namespace WriteBuffer

namespace ChainStore

/-- The link behind a node, or in front of all nodes. -/
def linkAt (nodes : ChainStore) (start : Option NodeId) : Option NodeId → Option (Option NodeId)
  | none => some start
  | some id => (nodes.get? id).map ChainNode.next

/-- The chain that begins at a place has exactly the given rows. -/
structure LinkedAs (nodes : ChainStore) (start : Option NodeId) (rows : List Row) : Prop where
  distinct : (ids rows).Nodup
  stored : ∀ row ∈ rows, ∃ node, nodes.get? row.1 = some node ∧ node.handle = row.2
  leads : Leads (linkAt nodes start) none (ids rows)

variable {nodes : ChainStore} {start : Option NodeId} {rows first rest : List Row}
  {shelf : Shelf} {entries : List Bytes} {keys : Bytes → Prop} {entry : Bytes}

theorem linkedAs_nil (nodes : ChainStore) : LinkedAs nodes none [] :=
  ⟨List.nodup_nil, by simp, rfl⟩

theorem nodesFrom_eq {place : Option NodeId} {fuel : Nat}
    (stored : ∀ row ∈ rows, ∃ node, nodes.get? row.1 = some node ∧ node.handle = row.2)
    (leads : Leads (linkAt nodes start) place (ids rows)) (enough : rows.length ≤ fuel) :
    nodesFrom nodes fuel (ids rows).head? = .ok rows := by
  induction rows generalizing place fuel with
  | nil => cases fuel <;> rfl
  | cons row rest ih =>
    obtain ⟨fuel, rfl⟩ : ∃ less, fuel = less + 1 :=
      ⟨fuel - 1, by rw [List.length_cons] at enough; omega⟩
    obtain ⟨node, found, handle⟩ := stored row List.mem_cons_self
    have onward : node.next = (ids rest).head? := by
      have behind := Leads.link_eq leads.2
      simpa [linkAt, found] using behind
    simp only [ids, List.map_cons, List.head?_cons, nodesFrom, found, onward]
    rw [ih (fun other member => stored other (List.mem_cons_of_mem _ member)) leads.2
      (by simpa using enough)]
    simp [handle, bind, Except.bind, pure, Except.pure]

theorem seekIn_eq {below : Handle → Except Failure Bool}
    (yes : ∀ row ∈ first, below row.2 = .ok true) (no : ∀ row ∈ rest, below row.2 = .ok false) :
    seekIn below (first ++ rest) = .ok rest.head? := by
  induction first with
  | nil =>
    cases rest with
    | nil => rfl
    | cons row others =>
      simp [seekIn, no row List.mem_cons_self, bind, Except.bind, pure, Except.pure]
  | cons row others ih =>
    simp only [List.cons_append, seekIn, yes row List.mem_cons_self, bind, Except.bind, if_true]
    exact ih fun other member => yes other (List.mem_cons_of_mem _ member)

theorem seekIn_fails {below : Handle → Except Failure Bool} {failure : Failure} (filled : rows ≠ [])
    (fails : ∀ row ∈ rows, below row.2 = .error failure) : seekIn below rows = .error failure := by
  obtain ⟨row, others, rfl⟩ := List.exists_cons_of_ne_nil filled
  simp only [seekIn, fails row List.mem_cons_self, bind, Except.bind]

theorem gapIn_append {compare : Handle → Except Failure Ordering}
    (less : ∀ row ∈ first, compare row.2 = .ok .lt) (previous : Option NodeId) :
    gapIn compare previous (first ++ rest) = gapIn compare ((ids first).getLast?.or previous) rest := by
  induction first generalizing previous with
  | nil => rfl
  | cons row others ih =>
    simp only [List.cons_append, gapIn, less row List.mem_cons_self, bind, Except.bind]
    rw [ih (fun other member => less other (List.mem_cons_of_mem _ member)), ids, ids, List.map_cons,
      Leads.getLast?_or_cons]

/-- The gap for an entry is between the rows below and those above, unless the first row that is not
below ties with it. -/
theorem gapIn_cases (total : shelf.order.TotalOn keys)
    (reads : shelf.Reads (handlesOf rows) entries)
    (readable : ∀ other ∈ entries, HasKey keys other) (sorted : shelf.order.Sorted entries)
    (hasKey : HasKey keys entry) :
    ∃ first rest smaller greater, shelf.Gap entry rows entries first rest smaller greater ∧
      ((gapIn (shelf.compareEntry · entry) none rows = .error (.duplicateKey .chain) ∧
          ∃ other ∈ entries, shelf.order.Ties other entry) ∨
        (gapIn (shelf.compareEntry · entry) none rows
            = .ok ((ids first).getLast?, (ids rest).head?) ∧
          ∀ other ∈ greater, shelf.order.Below entry other)) := by
  obtain ⟨first, rest, smaller, greater, gap, place⟩ :=
    reads.ties_or_gap total readable sorted hasKey
  refine ⟨first, rest, smaller, greater, gap, ?_⟩
  have less : ∀ row ∈ first, shelf.compareEntry row.2 entry = .ok .lt := by
    intro row member
    obtain ⟨other, inFront, read⟩ := gap.readFront.exists_entry (List.mem_map_of_mem member)
    rw [Shelf.compareEntry_eq read]
    exact gap.below other inFront
  rw [gap.rows, gapIn_append less, Option.or_none]
  rcases gap.readBack.cons_cases with
    ⟨rfl, rfl⟩ | ⟨row, others, next, later, rfl, rfl, readNext⟩
  · exact .inr ⟨rfl, by simp⟩
  · simp only [gapIn, Shelf.compareEntry_eq readNext]
    rcases place with ⟨other, head, ties⟩ | above
    · obtain rfl : next = other := by simpa using head
      have equal : shelf.order.compareEntries next entry = .ok .eq := ties
      simp only [equal]
      exact .inl ⟨rfl, next, by rw [gap.entries]; simp, ties⟩
    · have nextKey := readable next (by rw [gap.entries]; simp)
      have greater : shelf.order.compareEntries next entry = .ok .gt :=
        total.compareEntries_swap hasKey nextKey (above next List.mem_cons_self)
      simp only [greater]
      exact .inr ⟨rfl, above⟩

theorem gapIn_ok (total : shelf.order.TotalOn keys) (reads : shelf.Reads (handlesOf rows) entries)
    (readable : ∀ other ∈ entries, HasKey keys other) (sorted : shelf.order.Sorted entries)
    (hasKey : HasKey keys entry) (apart : ∀ other ∈ entries, ¬ shelf.order.Ties other entry) :
    ∃ place, gapIn (shelf.compareEntry · entry) none rows = .ok place := by
  obtain ⟨_, _, _, _, _, ⟨_, other, member, ties⟩ | ⟨found, _⟩⟩ :=
    gapIn_cases total reads readable sorted hasKey
  · exact absurd ties (apart other member)
  · exact ⟨_, found⟩

/-- The node in front of a row is the last one of the rows in front. -/
theorem before_eq {row : Row} (distinct : (ids (first ++ row :: rest)).Nodup) :
    before row.1 (first ++ row :: rest) = (ids first).getLast? := by
  induction first with
  | nil =>
    -- The row is found in front of no other.
    have absent : ∀ rest : List Row, row.1 ∉ ids rest → ∀ other : Row,
        before row.1 (other :: rest) = none := by
      intro rest
      induction rest with
      | nil => intro _ other; rfl
      | cons next rest ih =>
        intro absent other
        simp only [ids, List.map_cons, List.mem_cons, not_or] at absent
        simp only [before, Ne.symm absent.1, if_false]
        exact ih absent.2 next
    exact absent rest (List.nodup_cons.mp distinct).1 row
  | cons other others ih =>
    obtain ⟨fresh, distinct⟩ := List.nodup_cons.mp distinct
    cases others with
    | nil => simp [before]
    | cons next more =>
      have different : next.1 ≠ row.1 := by
        have middle := (List.nodup_append.mp (by simpa [ids] using distinct :
          (next.1 :: more.map Prod.fst ++ row.1 :: rest.map Prod.fst).Nodup)).2.2
        exact middle next.1 List.mem_cons_self row.1 List.mem_cons_self
      simp only [List.cons_append, before, different, if_false]
      rw [show next :: (more ++ row :: rest) = (next :: more) ++ row :: rest from rfl, ih distinct]
      simp [ids]

namespace LinkedAs

theorem length_le (linked : LinkedAs nodes start rows) (tallied : nodes.Tallied) :
    rows.length ≤ nodes.size := by
  have bound := tallied.length_le linked.distinct (by
    intro id member
    obtain ⟨row, inRows, rfl⟩ := List.mem_map.mp member
    obtain ⟨node, stored, _⟩ := linked.stored row inRows
    simp [stored])
  simpa using bound

theorem start_eq (linked : LinkedAs nodes start rows) : start = (ids rows).head? := by
  simpa [linkAt] using linked.leads.link_eq

theorem chain_eq (linked : LinkedAs nodes start rows) (tallied : nodes.Tallied) :
    nodes.chain start = .ok rows := by
  rw [chain, linked.start_eq]
  exact nodesFrom_eq linked.stored linked.leads (linked.length_le tallied)

theorem notMem_of_free (linked : LinkedAs nodes start rows) {id : NodeId}
    (free : nodes.get? id = none) : id ∉ ids rows := by
  intro member
  obtain ⟨row, inRows, rfl⟩ := List.mem_map.mp member
  obtain ⟨node, found, _⟩ := linked.stored row inRows
  rw [free] at found
  cases found

theorem frame (linked : LinkedAs nodes start rows) {others : ChainStore}
    (same : ∀ id ∈ ids rows, others.get? id = nodes.get? id) : LinkedAs others start rows where
  distinct := linked.distinct
  stored := by
    intro row member
    rw [same row.1 (List.mem_map_of_mem member)]
    exact linked.stored row member
  leads := by
    refine linked.leads.congr ?_
    intro place member
    rcases List.mem_cons.mp member with rfl | inRows
    · rfl
    · obtain ⟨id, found, rfl⟩ := List.mem_map.mp inRows
      simp only [linkAt, same id found]

/-- A new node is taken in once it links to the rows at the back, the place in front of it leads to
it, and all other links are as they were. -/
theorem insert {grown : ChainStore} {newStart : Option NodeId} {id : NodeId} {handle : Handle}
    (linked : LinkedAs nodes start (first ++ rest)) (fresh : id ∉ ids (first ++ rest))
    (new : grown.get? id = some ⟨handle, (ids rest).head?⟩)
    (into : linkAt grown newStart (ids first).getLast? = some (some id))
    (handles : ∀ other ∈ ids (first ++ rest),
      (grown.get? other).map ChainNode.handle = (nodes.get? other).map ChainNode.handle)
    (same : ∀ place ∈ none :: (ids (first ++ rest)).map some, place ≠ (ids first).getLast? →
      linkAt grown newStart place = linkAt nodes start place) :
    LinkedAs grown newStart (first ++ (id, handle) :: rest) where
  distinct := by
    have distinct := linked.distinct
    simp only [ids, List.map_append, List.map_cons] at distinct fresh ⊢
    exact List.nodup_middle.mpr (List.nodup_cons.mpr ⟨by simpa using fresh, distinct⟩)
  stored := by
    intro row member
    by_cases isNew : row = (id, handle)
    · subst isNew
      exact ⟨_, new, rfl⟩
    · have old : row ∈ first ++ rest := by
        simp only [List.mem_append, List.mem_cons] at member ⊢
        tauto
      obtain ⟨node, found, handle⟩ := linked.stored row old
      have kept := handles row.1 (List.mem_map_of_mem old)
      rw [found] at kept
      obtain ⟨now, foundNow, sameHandle⟩ := Option.map_eq_some_iff.mp kept
      exact ⟨now, foundNow, sameHandle.trans handle⟩
  leads := by
    have leads := linked.leads
    have distinct := Leads.nodup_places linked.distinct
    rw [ids, List.map_append] at leads distinct same ⊢
    refine leads.insert distinct ?_ ?_ ?_
    · rw [Option.or_none]
      exact into
    · simp only [linkAt, new, Option.map_some]
    · rw [Option.or_none]
      exact same

theorem node_at (linked : LinkedAs nodes start rows) {index : Nat} (within : index < rows.length) :
    ∃ node, nodeAt rows (some index) = some rows[index].1 ∧
      nodes.get? rows[index].1 = some node ∧ node.handle = rows[index].2 ∧
      node.next = (ids rows)[index + 1]? := by
  obtain ⟨node, stored, handle⟩ := linked.stored rows[index] (List.getElem_mem within)
  refine ⟨node, by simp [nodeAt, within], stored, handle, ?_⟩
  have leads := linked.leads
  rw [← List.take_append_drop (index + 1) rows, ids, List.map_append] at leads
  have onward := leads.behind.link_eq
  rw [List.take_succ_eq_append_getElem within, List.map_append, List.map_singleton,
    List.getLast?_append, List.getLast?_singleton, Option.some_or, Option.some_or] at onward
  have next : node.next = ((rows.drop (index + 1)).map Prod.fst).head? := by
    simpa [linkAt, stored] using onward
  rw [next]
  simp [ids, List.head?_drop]

/-- A cursor over a chain in which the entries stand in order follows them. -/
theorem follows (linked : LinkedAs nodes start rows) (tallied : nodes.Tallied)
    (reads : shelf.Reads (handlesOf rows) entries) :
    (nodes.moves start shelf).Follows shelf.order entries (nodeAt rows) := by
  have size : rows.length = entries.length := by simpa using reads.length_eq
  have chain := linked.chain_eq tallied
  constructor
  · constructor
    · rfl
    · intro index within
      simp [moves, nodeAt, size, within]
    · intro index entry found
      have within : index < rows.length := by
        rw [size]
        exact (List.getElem?_eq_some_iff.mp found).1
      obtain ⟨node, place, stored, handle, _⟩ := linked.node_at within
      have read := reads.getElem? index
      rw [found, List.getElem?_map, List.getElem?_eq_getElem within] at read
      simp only [moves, place, atPlace, stored, handle]
      simpa using read
    · intro index within
      obtain ⟨node, place, stored, _, onward⟩ := linked.node_at (size ▸ within)
      simp only [moves, place, atPlace, stored, onward, nodeAt_inside size]
    · intro index within
      have inRows : index < rows.length := size ▸ within
      obtain ⟨node, place, _⟩ := linked.node_at inRows
      have parts : rows = rows.take index ++ rows[index] :: rows.drop (index + 1) := by
        rw [List.getElem_cons_drop, List.take_append_drop]
      have distinct := linked.distinct
      rw [parts] at distinct
      have found := before_eq distinct
      have pred := nodeAt_pred (rows.take index) (rows[index] :: rows.drop (index + 1))
      rw [← parts] at found pred
      rw [List.length_take_of_le (by omega)] at pred
      simp only [moves, place, atPlace, chain, bind, Except.bind, pure, Except.pure, found, ← pred]
    · intro index _
      simpa [moves, ← size] using linked.length_le tallied
  · intro at?
    simp only [moves, nodeAt_inside size, linked.start_eq, List.head?_eq_getElem?]
  · intro at?
    simp only [moves, chain, bind, Except.bind, pure, Except.pure, nodeAt_inside size,
      List.getLast?_eq_getElem?, List.getElem?_map, size]
  · intro at? target front back parts split
    obtain ⟨first, rest, rfl, readFirst, _, below, notBelow⟩ := (parts ▸ reads).split_rows split
    have sameSize : front.length = first.length := by simpa using readFirst.length_eq.symm
    simp only [moves, chain, bind, Except.bind, seekIn_eq below notBelow, pure, Except.pure,
      nodeAt_inside size, sameSize, nodeAt_append, List.head?_map]
  · rfl
  · exact ⟨rfl, rfl⟩
  · intro at? target failure filled fails
    obtain ⟨some, refused⟩ := reads.refuses_rows filled fails
    simp only [moves, chain, bind, Except.bind, seekIn_fails some refused]

end LinkedAs

end ChainStore

end WriteBuffer
