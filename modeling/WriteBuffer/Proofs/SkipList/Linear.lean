import Mathlib
import WriteBuffer.Proofs.Arranging
import WriteBuffer.Proofs.SkipList.Sessions
import WriteBuffer.Proofs.VersionedOrder

/-!
Searches that skip nodes find what a search node by node finds. After any steps of a session the
nodes of a list stand in the order of their entries, and lists on one store have no node in common
(`SkipListSession.Arranged`). So the links of each level form a chain of ascending entries, part of
the chain of the level below (`SkipList.Chains`), and every search ends where a scan of a whole
chain does (`SkipList.SearchesLinearly`), however high the towers are
(`SkipListSession.run_searches_linearly`).
-/
namespace WriteBuffer

/-- A key cuts rows in two whose entries are in order: those in front are below it. -/
theorem Shelf.Reads.exists_parts {shelf : Shelf} {keys : Bytes → Prop} {rows : List Row}
    {entries : List Bytes} {target : Bytes} (reads : shelf.Reads (handlesOf rows) entries)
    (total : shelf.order.TotalOn keys) (readable : ∀ entry ∈ entries, HasKey keys entry)
    (sorted : shelf.order.Sorted entries) (held : keys target) :
    ∃ front back, rows = front ++ back ∧
      (∀ row ∈ front, shelf.isBelowKey target row.2 = .ok true) ∧
      ∀ row ∈ back, shelf.isBelowKey target row.2 = .ok false := by
  obtain ⟨front, back, rfl, split⟩ := total.splits held readable sorted
  obtain ⟨first, rest, parts, _, _, below, notBelow⟩ := reads.split_rows split
  exact ⟨first, rest, parts, below, notBelow⟩

namespace SkipList

/-- Whether a node passes a test of its handle. -/
def passes (nodes : NodeStore) (test : Handle → Except Failure Bool) (id : NodeId) : Bool :=
  match nodes.get? id with
  | some node => decide (test node.handle = .ok true)
  | none => false

/-- The entry of one node comes before that of another one. -/
def Precedes (nodes : NodeStore) (shelf : Shelf) (a b : NodeId) : Prop :=
  ∃ x y, entry nodes shelf a = .ok x ∧ entry nodes shelf b = .ok y ∧ shelf.order.Below x y

/-- The links of each level lead from the head through a chain of ascending entries and then end.
Each chain is part of the one below, the lowest holds the handles that were taken in and no others,
and from the height in use on the head leads nowhere. -/
structure Chains (list : SkipList) (nodes : NodeStore) (shelf : Shelf) (chain : Nat → List NodeId)
    (taken : List Handle) : Prop where
  leads : ∀ level < list.maxHeight, Leads (list.linkAt nodes level) none (chain level)
  ascending : ∀ level, (chain level).Pairwise (Precedes nodes shelf)
  sublist : ∀ level, (chain (level + 1)).Sublist (chain level)
  lowest : ∃ handles, list.handles nodes = .ok handles ∧
    (chain 0).mapM (fun id => (node nodes id).map (·.handle)) = .ok handles ∧ handles.Perm taken
  unused : ∀ level, list.height ≤ level → level < list.maxHeight → list.head[level]? = some none

/-- Every search ends, and it finds what a scan of a whole chain finds. -/
structure SearchesLinearly (list : SkipList) (nodes : NodeStore) (shelf : Shelf)
    (keys : Bytes → Prop) (chain : Nat → List NodeId) : Prop where
  seek : ∀ target, keys target → list.seek nodes (shelf.isBelowKey target)
    = .ok ((chain 0).find? fun id => !passes nodes (shelf.isBelowKey target) id)
  seekBefore : ∀ target, keys target → list.seekBefore nodes (shelf.isBelowKey target)
    = .ok ((chain 0).filter (passes nodes (shelf.isBelowKey target))).getLast?
  seekBeforeEntry : ∀ entry, HasKey keys entry → list.seekBefore nodes (shelf.isBelowEntry entry)
    = .ok ((chain 0).filter (passes nodes (shelf.isBelowEntry entry))).getLast?
  last : list.last nodes = .ok (chain 0).getLast?
  splice : ∀ entry, HasKey keys entry →
    ∃ splice, list.splice nodes (shelf.isBelowEntry entry) = .ok splice ∧
      ∀ level < list.maxHeight, splice.getD level none
        = ((chain level).filter (passes nodes (shelf.isBelowEntry entry))).getLast?
  spliceFor : ∀ other, HasKey keys other →
    ((∃ id ∈ chain 0, ∃ found, entry nodes shelf id = .ok found ∧ shelf.order.Ties found other) →
      list.spliceFor nodes shelf other = .error (.duplicateKey .skipList)) ∧
    ((∀ id ∈ chain 0, ∀ found, entry nodes shelf id = .ok found → ¬ shelf.order.Ties found other) →
      list.spliceFor nodes shelf other = list.splice nodes (shelf.isBelowEntry other))

namespace LinkedAs

variable {list : SkipList} {nodes : NodeStore} {rows front back : List Row} {shelf : Shelf}
  {keys : Bytes → Prop} {entries : List Bytes}

theorem passes_iff (linked : list.LinkedAs nodes rows) {row : Row} (member : row ∈ rows)
    (test : Handle → Except Failure Bool) :
    passes nodes test row.1 = true ↔ test row.2 = .ok true := by
  obtain ⟨node, stored, handle, _⟩ := linked.stored row member
  simp [passes, stored, handle]

/-- The nodes of a level that pass a test are those in front. -/
theorem filter_lane (linked : list.LinkedAs nodes (front ++ back))
    {test : Handle → Except Failure Bool} (yes : ∀ row ∈ front, test row.2 = .ok true)
    (no : ∀ row ∈ back, test row.2 = .ok false) (level : Nat) :
    (lane nodes level (ids (front ++ back))).filter (passes nodes test)
      = lane nodes level (ids front) := by
  rw [ids, List.map_append, lane_append, List.filter_append, List.filter_eq_self.mpr,
    List.filter_eq_nil_iff.mpr, List.append_nil]
  · intro id member
    obtain ⟨row, inBack, rfl⟩ := List.mem_map.mp (List.mem_filter.mp member).1
    rw [linked.passes_iff (List.mem_append_right _ inBack), no row inBack]
    simp
  · intro id member
    obtain ⟨row, inFront, rfl⟩ := List.mem_map.mp (List.mem_filter.mp member).1
    exact (linked.passes_iff (List.mem_append_left _ inFront) test).mpr (yes row inFront)

/-- The first node that does not pass a test is the first at the back. -/
theorem find?_ids (linked : list.LinkedAs nodes (front ++ back))
    {test : Handle → Except Failure Bool} (yes : ∀ row ∈ front, test row.2 = .ok true)
    (no : ∀ row ∈ back, test row.2 = .ok false) :
    (ids (front ++ back)).find? (fun id => !passes nodes test id) = (ids back).head? := by
  rw [ids, List.map_append, List.find?_append, List.find?_eq_none.mpr, Option.none_or]
  · cases back with
    | nil => rfl
    | cons row rest =>
      have fails : passes nodes test row.1 = false := by
        rw [Bool.eq_false_iff, ne_eq, linked.passes_iff (by simp), no row List.mem_cons_self]
        simp
      simp [fails]
  · intro id member
    obtain ⟨row, inFront, rfl⟩ := List.mem_map.mp member
    have holds := (linked.passes_iff (List.mem_append_left _ inFront) test).mpr (yes row inFront)
    simp [holds]

theorem entry_row (linked : list.LinkedAs nodes rows) {row : Row} (member : row ∈ rows) :
    entry nodes shelf row.1 = shelf.arena.get row.2 := by
  obtain ⟨node, stored, handle, _⟩ := linked.stored row member
  simp only [entry, node_eq stored, handle, bind, Except.bind]

theorem precedes (linked : list.LinkedAs nodes rows) (reads : shelf.Reads (handlesOf rows) entries)
    (sorted : shelf.order.Sorted entries) : (ids rows).Pairwise (Precedes nodes shelf) := by
  have onHandles : (handlesOf rows).Pairwise fun a b =>
      ∃ x y, shelf.arena.get a = .ok x ∧ shelf.arena.get b = .ok y ∧ shelf.order.Below x y := by
    refine (reads.pairwise_iff ?_).mpr sorted
    intro a b x y readA readB
    simp [readA, readB, KeyOrder.Below]
  rw [List.pairwise_map] at onHandles ⊢
  refine onHandles.imp_of_mem ?_
  rintro a b inA inB ⟨x, y, readA, readB, below⟩
  exact ⟨x, y, (linked.entry_row inA).trans readA, (linked.entry_row inB).trans readB, below⟩

/-- The lanes of a list in which the entries stand in order are its chains. -/
theorem chains (linked : list.LinkedAs nodes rows) (tallied : nodes.Tallied)
    (reads : shelf.Reads (handlesOf rows) entries) (sorted : shelf.order.Sorted entries)
    {taken : List Handle} (perm : (handlesOf rows).Perm taken) :
    list.Chains nodes shelf (fun level => lane nodes level (ids rows)) taken where
  leads := linked.lanes
  ascending level := (linked.precedes reads sorted).sublist List.filter_sublist
  sublist level := by
    have less : ∀ id, decide (level + 1 < towerHeight nodes id) = true →
        decide (level < towerHeight nodes id) = true := by
      intro id
      simp only [decide_eq_true_eq]
      omega
    exact List.monotone_filter_right _ less
  lowest := by
    refine ⟨handlesOf rows, linked.handles_eq tallied, ?_, perm⟩
    rw [linked.lane_zero fun _ member => member, ids, List.mapM_map]
    refine mapM_eq_map ?_
    intro row member
    obtain ⟨node, stored, handle, _⟩ := linked.stored row member
    simp only [Function.comp_apply, node_eq stored, Except.map, handle]
  unused level high low := by
    have leads := linked.lanes level low
    rw [linked.lane_eq_nil (fun _ member => member) high] at leads
    exact leads

/-- A node has an entry that ties with a given one just if an entry of the list does. -/
theorem exists_ties_iff (linked : list.LinkedAs nodes rows)
    (reads : shelf.Reads (handlesOf rows) entries) (other : Bytes) :
    (∃ id ∈ lane nodes 0 (ids rows), ∃ found, entry nodes shelf id = .ok found ∧
      shelf.order.Ties found other) ↔ ∃ found ∈ entries, shelf.order.Ties found other := by
  rw [linked.lane_zero fun _ member => member]
  constructor
  · rintro ⟨id, member, found, read, ties⟩
    obtain ⟨row, inRows, rfl⟩ := List.mem_map.mp member
    rw [linked.entry_row inRows] at read
    obtain ⟨same, inEntries, again⟩ := reads.exists_entry (List.mem_map_of_mem inRows)
    obtain rfl := Except.ok.inj (read.symm.trans again)
    exact ⟨found, inEntries, ties⟩
  · rintro ⟨found, inEntries, ties⟩
    obtain ⟨handle, named, read⟩ := reads.exists_handle inEntries
    obtain ⟨row, inRows, rfl⟩ := List.mem_map.mp named
    exact ⟨row.1, List.mem_map_of_mem inRows, found, (linked.entry_row inRows).trans read, ties⟩

/-- In a list in which the entries stand in order, every search finds what a scan finds. -/
theorem searchesLinearly (linked : list.LinkedAs nodes rows) (tallied : nodes.Tallied)
    (total : shelf.order.TotalOn keys) (reads : shelf.Reads (handlesOf rows) entries)
    (readable : ∀ entry ∈ entries, HasKey keys entry) (sorted : shelf.order.Sorted entries) :
    list.SearchesLinearly nodes shelf keys fun level => lane nodes level (ids rows) := by
  have before : ∀ target, keys target → list.seekBefore nodes (shelf.isBelowKey target)
      = .ok ((lane nodes 0 (ids rows)).filter
        (passes nodes (shelf.isBelowKey target))).getLast? := by
    intro target held
    obtain ⟨front, back, rfl, yes, no⟩ := reads.exists_parts total readable sorted held
    rw [linked.seekBefore_eq tallied yes no, linked.filter_lane yes no,
      linked.lane_zero (by simp +contextual [ids])]
  refine ⟨?_, before, ?_, ?_, ?_, ?_⟩
  · intro target held
    obtain ⟨front, back, rfl, yes, no⟩ := reads.exists_parts total readable sorted held
    rw [linked.seek_eq tallied yes no, linked.lane_zero fun _ member => member,
      linked.find?_ids yes no]
  · rintro entry ⟨key, cut, held⟩
    rw [show shelf.isBelowEntry entry = shelf.isBelowKey key from
      funext (Shelf.isBelowEntry_eq cut)]
    exact before key held
  · rw [linked.last_eq tallied, linked.lane_zero fun _ member => member]
  · rintro entry ⟨key, cut, held⟩
    rw [show shelf.isBelowEntry entry = shelf.isBelowKey key from
      funext (Shelf.isBelowEntry_eq cut)]
    obtain ⟨front, back, rfl, yes, no⟩ := reads.exists_parts total readable sorted held
    refine ⟨_, linked.splice_eq tallied yes no, fun level _ => ?_⟩
    rw [linked.splice_getD, linked.filter_lane yes no]
  · intro other hasKey
    obtain ⟨first, rest, smaller, greater, gap, ⟨refused, ties⟩ | ⟨found, above⟩⟩ :=
      linked.spliceFor_cases tallied total reads readable sorted hasKey
    · refine ⟨fun _ => refused, fun apart => ?_⟩
      obtain ⟨id, member, twin, read, ties⟩ := (linked.exists_ties_iff reads other).mpr ties
      exact absurd ties (apart id member twin read)
    · have parted : list.LinkedAs nodes (first ++ rest) := gap.rows ▸ linked
      refine ⟨fun twin => ?_, fun _ => ?_⟩
      · obtain ⟨twin, member, ties⟩ := (linked.exists_ties_iff reads other).mp twin
        have twinKey := readable twin member
        rw [gap.entries] at member
        rcases List.mem_append.mp member with inFront | inBack
        · cases (gap.below twin inFront).symm.trans ties
        · cases (above twin inBack).symm.trans (total.ties_symm twinKey hasKey ties)
      · rw [found, parted.splice_eq tallied gap.isBelow gap.notBelow]

end LinkedAs

end SkipList

namespace SkipListSession

open SkipList (LinkedAs)

variable {session next : SkipListSession} {order : KeyOrder} {keys : Bytes → Prop}
  {rows : Nat → List Row} {number : Nat} {handle : Handle} {command : SkipListCommand}

/-- Each list of a session has rows of its own, in the order of their entries. -/
structure Arranged (session : SkipListSession) (keys : Bytes → Prop) (rows : Nat → List Row) :
    Prop where
  total : session.shelf.order.TotalOn keys
  readable : ∀ {handle entry}, session.shelf.arena.get handle = .ok entry → HasKey keys entry
  tallied : ∀ {store : Nat} {nodes}, session.stores[store]? = some nodes → nodes.Tallied
  linked : ∀ {number list store nodes}, session.find? number = some (list, store, nodes) →
    list.LinkedAs nodes (rows number)
  sorted : ∀ number, ∃ entries, session.shelf.Reads (handlesOf (rows number)) entries ∧
    session.shelf.order.Sorted entries
  apart : ∀ {a b : Nat} {listA listB store}, a ≠ b → session.lists[a]? = some (listA, store) →
    session.lists[b]? = some (listB, store) → (ids (rows a)).Disjoint (ids (rows b))

theorem Fresh.arranged (new : session.Fresh order) (total : order.TotalOn keys) :
    session.Arranged keys fun _ => [] where
  total := new.order ▸ total
  readable := by
    intro handle entry found
    rw [new.arena] at found
    simp [Arena.get] at found
  tallied found := new.stores found ▸ ChunkStore.tallied_empty
  linked := by
    intro number list store nodes found
    obtain ⟨inLists, _⟩ := find?_eq_some_iff.mp found
    obtain ⟨⟨maxHeight, branching, made⟩, _⟩ := new.lists inLists
    simp only [SkipList.create] at made
    split at made
    · cases made
    · split at made
      · cases made
      · next positive _ =>
        obtain rfl := Except.ok.inj made
        exact SkipList.linkedAs_nil nodes (by omega)
  sorted _ := ⟨[], rfl, .nil⟩
  apart := by simp

namespace Arranged

theorem entries (arranged : session.Arranged keys rows) (number : Nat) :
    ∃ entries, session.shelf.Reads (handlesOf (rows number)) entries ∧
      session.shelf.order.Sorted entries ∧ ∀ entry ∈ entries, HasKey keys entry := by
  obtain ⟨entries, reads, sorted⟩ := arranged.sorted number
  refine ⟨entries, reads, sorted, ?_⟩
  intro entry member
  obtain ⟨handle, _, read⟩ := reads.exists_handle member
  exact arranged.readable read

theorem leavesLists (arranged : session.Arranged keys rows)
    (extended : session.shelf.Extends next.shelf)
    (readable : ∀ {handle entry}, next.shelf.arena.get handle = .ok entry → HasKey keys entry)
    (leaves : session.LeavesLists next) : next.Arranged keys rows where
  total := extended.order ▸ arranged.total
  readable := readable
  tallied found := arranged.tallied (leaves.stores ▸ found)
  linked found := by
    rw [find?_eq_some_iff, leaves.lists, leaves.stores, ← find?_eq_some_iff] at found
    exact arranged.linked found
  sorted number := by
    obtain ⟨entries, reads, sorted⟩ := arranged.sorted number
    exact ⟨entries, reads.keeps extended.keeps, extended.order ▸ sorted⟩
  apart different inA inB :=
    arranged.apart different (leaves.lists ▸ inA) (leaves.lists ▸ inB)

theorem strangers (arranged : session.Arranged keys rows) {list listed : SkipList} {store : Nat}
    {nodes : NodeStore} {new : NodeId} {other : Nat}
    (found : session.find? number = some (list, store, nodes)) (free : nodes.get? new = none)
    (inOther : session.lists[other]? = some (listed, store)) (different : other ≠ number) :
    ∀ id ∈ ids (rows other), id ≠ new ∧ id ∉ ids (rows number) := by
  intro id member
  obtain ⟨inLists, inStores⟩ := find?_eq_some_iff.mp found
  have linked := arranged.linked (find?_eq_some_iff.mpr ⟨inOther, inStores⟩)
  exact ⟨fun same => linked.notMem_of_free free (same ▸ member),
    fun inList => arranged.apart different inOther inLists member inList⟩

/-- Lists on one store stay apart when one of them gets rows that none of the others has. -/
theorem apart_update (arranged : session.Arranged keys rows) {list longer : SkipList} {store : Nat}
    (inLists : session.lists[number]? = some (list, store))
    (lists : next.lists = session.lists.set number (longer, store)) {grown : List Row}
    (apart : ∀ {other listed}, other ≠ number → session.lists[other]? = some (listed, store) →
      (ids grown).Disjoint (ids (rows other)))
    {a b : Nat} {listA listB : SkipList} {at? : Nat} (different : a ≠ b)
    (inA : next.lists[a]? = some (listA, at?)) (inB : next.lists[b]? = some (listB, at?)) :
    (ids (Function.update rows number grown a)).Disjoint
      (ids (Function.update rows number grown b)) := by
  have before : ∀ {other : Nat} {listed : SkipList}, next.lists[other]? = some (listed, at?) →
      ∃ old, session.lists[other]? = some (old, at?) := by
    intro other listed inNext
    rcases getElem?_set_cases (lists ▸ inNext) with ⟨rfl, same⟩ | ⟨_, old⟩
    · exact ⟨list, (Prod.mk.inj same).2 ▸ inLists⟩
    · exact ⟨listed, old⟩
  obtain ⟨oldA, inA⟩ := before inA
  obtain ⟨oldB, inB⟩ := before inB
  refine pairwise_update (R := fun (a b : Nat) one another => ∀ listA listB : SkipList,
      session.lists[a]? = some (listA, at?) → session.lists[b]? = some (listB, at?) →
        (ids one).Disjoint (ids another))
    (fun apart listB listA inB inA => (apart listA listB inA inB).symm)
    (fun other different listed listB inNumber inOther => ?_)
    (fun different _ _ => arranged.apart different) different oldA oldB inA inB
  obtain ⟨_, rfl⟩ := Prod.mk.inj (Option.some.inj (inLists.symm.trans inNumber))
  exact apart different inOther

/-- A handle that is taken in gets a row of its own in its list, and no other list changes. -/
theorem takesIn (arranged : session.Arranged keys rows)
    (readable : ∀ {handle entry}, next.shelf.arena.get handle = .ok entry → HasKey keys entry)
    (takesIn : session.TakesIn next number handle) :
    ∃ longer, next.Arranged keys (Function.update rows number longer) ∧
      (handlesOf longer).Perm (handlesOf (rows number) ++ [handle]) := by
  obtain ⟨found, later, earlier, read, place, done, stores, lists⟩ := takesIn
  rename_i list grownList store height nodes grown before entry splice
  obtain ⟨inLists, inStores⟩ := find?_eq_some_iff.mp found
  have linked := arranged.linked found
  have tallied := arranged.tallied inStores
  obtain ⟨entries, reads, sorted, readableOld⟩ := arranged.entries number
  have order : next.shelf.order = before.order := earlier.order
  obtain ⟨first, rest, smaller, greater, gap, ⟨refused, _⟩ | ⟨behind, above⟩⟩ :=
    linked.spliceFor_cases tallied (later.order ▸ arranged.total) (reads.keeps later.keeps)
      readableOld (later.order ▸ sorted) (readable read)
  · cases refused.symm.trans place
  obtain rfl := Except.ok.inj (behind.symm.trans place)
  obtain ⟨new, free, linkedNow, _, talliedNow, frame⟩ :=
    (gap.rows ▸ linked : list.LinkedAs nodes (first ++ rest)).insertAt_ok tallied done
  have others : ∀ {other listed}, session.lists[other]? = some (listed, store) → other ≠ number →
      ∀ id ∈ ids (rows other), id ≠ new ∧ id ∉ ids (first ++ rest) := fun inOther different =>
    gap.rows ▸ arranged.strangers found free inOther different
  refine ⟨first ++ (new, handle) :: rest, ⟨?_, readable, ?_, ?_, ?_, ?_⟩, ?_⟩
  · exact order ▸ later.order ▸ arranged.total
  · intro at? held inNext
    rcases getElem?_set_cases (stores ▸ inNext) with ⟨rfl, rfl⟩ | ⟨_, old⟩
    · exact talliedNow
    · exact arranged.tallied old
  · intro other listed at? held inNext
    obtain ⟨listsNext, storesNext⟩ := find?_eq_some_iff.mp inNext
    rcases getElem?_set_cases (lists ▸ listsNext) with ⟨rfl, same⟩ | ⟨different, old⟩
    · obtain ⟨rfl, rfl⟩ := Prod.mk.inj same
      rcases getElem?_set_cases (stores ▸ storesNext) with ⟨_, rfl⟩ | ⟨elsewhere, _⟩
      · rwa [Function.update_self]
      · exact absurd rfl elsewhere
    · rw [Function.update_of_ne different]
      rcases getElem?_set_cases (stores ▸ storesNext) with ⟨rfl, rfl⟩ | ⟨_, oldStore⟩
      · refine (arranged.linked (find?_eq_some_iff.mpr ⟨old, inStores⟩)).frame ?_
        intro id member
        obtain ⟨notNew, notIn⟩ := others old different id member
        exact frame id notNew notIn
      · exact arranged.linked (find?_eq_some_iff.mpr ⟨old, oldStore⟩)
  · intro other
    by_cases same : other = number
    · subst same
      rw [Function.update_self]
      refine ⟨_, gap.filled earlier.keeps read, order ▸ gap.sorted (later.order ▸ sorted) above⟩
    · rw [Function.update_of_ne same]
      obtain ⟨listed, readsOther, sortedOther⟩ := arranged.sorted other
      exact ⟨listed, readsOther.keeps (later.trans earlier).keeps,
        order ▸ later.order ▸ sortedOther⟩
  · refine arranged.apart_update inLists lists fun different inOther id member inside => ?_
    obtain ⟨notNew, notIn⟩ := others inOther different id inside
    simp only [ids, List.map_append, List.map_cons, List.mem_append, List.mem_cons] at member notIn
    tauto
  · rw [gap.rows]
    simp only [handlesOf, List.map_append, List.map_cons]
    rw [List.append_assoc]
    exact (List.perm_append_singleton handle (rest.map Prod.snd)).symm.append_left _

/-- A step keeps the rows of all lists, up to the handle that it takes in. -/
theorem execute (arranged : session.Arranged keys rows) (command : SkipListCommand)
    (wellFormed : ∀ record ∈ command.record?, ∀ entry, record.encode = .ok entry →
      HasKey keys entry) :
    ∃ more, (session.execute command).1.Arranged keys more ∧ ∀ number,
      (handlesOf (more number)).Perm
        (handlesOf (rows number) ++ session.linked number command) := by
  obtain ⟨extended, lists⟩ := session.carries command
  have readable : ∀ {handle entry}, (session.execute command).1.shelf.arena.get handle = .ok entry →
      HasKey keys entry := by
    intro handle entry found
    rcases extended.published found with before | ⟨record, written, encoded⟩
    · exact arranged.readable before
    · exact wellFormed record written entry encoded
  rcases lists with ⟨leaves, none⟩ | ⟨number, handle, takesIn, linked⟩
  · refine ⟨rows, arranged.leavesLists extended.shelf readable leaves, fun number => ?_⟩
    rw [none, List.append_nil]
  · obtain ⟨longer, arrangedNow, perm⟩ := arranged.takesIn readable takesIn
    refine ⟨_, arrangedNow, fun other => ?_⟩
    rw [linked]
    by_cases same : other = number
    · subst same
      rwa [Function.update_self, if_pos rfl]
    · rw [Function.update_of_ne same, if_neg same, List.append_nil]

/-- A run keeps the rows of all lists, up to the handles that it links in. -/
theorem run (arranged : session.Arranged keys rows) (commands : List SkipListCommand)
    (wellFormed : ∀ command ∈ commands, ∀ record ∈ command.record?, ∀ entry,
      record.encode = .ok entry → HasKey keys entry) :
    ∃ more, (session.run commands).Arranged keys more ∧ ∀ number, (handlesOf (more number)).Perm
      (handlesOf (rows number) ++ session.links number commands) := by
  induction commands generalizing session rows with
  | nil => exact ⟨rows, arranged, fun _ => by rw [links, List.append_nil]⟩
  | cons command rest ih =>
    obtain ⟨middle, arrangedNow, first⟩ :=
      arranged.execute command (wellFormed command List.mem_cons_self)
    obtain ⟨more, arrangedLast, later⟩ :=
      ih arrangedNow fun other member => wellFormed other (List.mem_cons_of_mem _ member)
    refine ⟨more, arrangedLast, fun number => (later number).trans ?_⟩
    rw [links, ← List.append_assoc]
    exact (first number).append_right _

end Arranged

/-- Whatever a session does with lists that were just made, whether they share a store or not, and
however high the towers are that are drawn: the links of each level of a list form a finite chain of
ascending entries, part of the chain below; the lowest holds exactly the handles that were linked
in; from the height in use on the head leads nowhere; and all searches end and find what a scan of a
chain finds. -/
theorem run_searches_linearly (new : session.Fresh order) (total : order.TotalOn keys)
    (commands : List SkipListCommand)
    (wellFormed : ∀ command ∈ commands, ∀ record ∈ command.record?, ∀ entry,
      record.encode = .ok entry → HasKey keys entry) {number : Nat}
    (inside : number < session.lists.length) :
    ∃ list store nodes chain, (session.run commands).find? number = some (list, store, nodes) ∧
      list.Chains nodes (session.run commands).shelf chain (session.links number commands) ∧
      list.SearchesLinearly nodes (session.run commands).shelf keys chain := by
  obtain ⟨rows, arranged, perm⟩ := (new.arranged total).run commands wellFormed
  obtain ⟨list, store, nodes, found⟩ := ((Housed.of_fresh new).run commands).find? inside
  obtain ⟨entries, reads, sorted, readable⟩ := arranged.entries number
  have linked := arranged.linked found
  have tallied := arranged.tallied (find?_eq_some_iff.mp found).2
  exact ⟨list, store, nodes, _, found, linked.chains tallied reads sorted (perm number),
    linked.searchesLinearly tallied arranged.total reads readable sorted⟩

/-- Two lists share a store and a handle, and an entry that is in the first one is refused there
when it comes again. -/
theorem run_searches_linearly_shared_store :
    let heights : Heights := fun drawn => [2, 1, 1, 3].getD drawn 1
    let empty : SkipList := { head := [none, none, none] }
    let session : SkipListSession := {
      shelf := { order := .versioned, arena := { id := 0 } }
      heights
      shared := true
      stores := [.empty]
      lists := [(empty, 0), (empty, 0)] }
    let commands : List SkipListCommand := [.add 0 ⟨[98], 1, .put, []⟩,
      .splice 0 ⟨[97], 1, .put, []⟩, .add 0 ⟨[98], 1, .put, [7]⟩, .link 1 ⟨0⟩,
      .splice 0 ⟨[99], 1, .put, []⟩]
    ∃ list store nodes chain, (session.run commands).find? 0 = some (list, store, nodes) ∧
      list.Chains nodes (session.run commands).shelf chain [⟨0⟩, ⟨1⟩, ⟨3⟩] ∧
      list.SearchesLinearly nodes (session.run commands).shelf HasTag chain := by
  intro heights empty session commands
  have started : start .versioned heights 3 4 2 true = .ok session := rfl
  have wellFormed : ∀ command ∈ commands, ∀ record ∈ command.record?, ∀ entry,
      record.encode = .ok entry → HasKey HasTag entry := by
    intro command member record written entry encoded
    have keyed : ∀ command ∈ commands, ∀ record ∈ command.record?,
        ∃ key ∈ [97, 98, 99].map fun letter => [letter, 1, 1, 0, 0, 0, 0, 0, 0],
          record.encode >>= entryKey = .ok key := by decide +kernel
    obtain ⟨key, known, cut⟩ := keyed command member record written
    rw [encoded] at cut
    refine ⟨key, cut, ?_⟩
    simp only [List.map_cons, List.map_nil, List.mem_cons, List.not_mem_nil, or_false] at known
    rcases known with rfl | rfl | rfl <;> simp [HasTag, tagSize]
  have linked : session.links 0 commands = [⟨0⟩, ⟨1⟩, ⟨3⟩] := by decide +kernel
  obtain ⟨new, _⟩ := fresh_start started
  exact linked ▸
    run_searches_linearly new KeyOrder.versioned_totalOn commands wellFormed (by decide)

end SkipListSession

end WriteBuffer
