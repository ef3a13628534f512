import Mathlib
import WriteBuffer.Proofs.GroupScans
import WriteBuffer.Proofs.WholeInserts

/-!
What is in the buckets of a table. Each entry that the table accepted is in the bucket of its user key
and in no other, the nodes of a bucket form a path through its entries in order, and there is no node
that is in no bucket (`MemTable.Bucketed`): every successful insert makes one node
(`MemTable.nodeCount_run`), so the nodes on the paths are all that there are. An insert looks for a
duplicate in one bucket only, but no other can have one (`MemTable.buckets_hold_accepted`).
-/
namespace WriteBuffer

/-- A computation does not end with the report of an entry with an equal key. -/
def NoDuplicate {α : Type} (answer : Except Failure α) : Prop :=
  ∀ place, answer ≠ .error (.duplicateKey place)

theorem noDuplicate_ok {α : Type} (value : α) : NoDuplicate (.ok value) := nofun

theorem NoDuplicate.error {α β : Type} {answer : Except Failure α} {failure : Failure}
    (other : NoDuplicate answer) (failed : answer = .error failure) :
    NoDuplicate (.error failure : Except Failure β) := by
  intro place same
  exact other place (failed.trans (congrArg _ (Except.error.inj same)))

theorem NoDuplicate.bind {α β : Type} {first : Except Failure α} {rest : α → Except Failure β}
    (start : NoDuplicate first) (onward : ∀ value, first = .ok value → NoDuplicate (rest value)) :
    NoDuplicate (first >>= rest) := by
  cases first with
  | error failure => exact start.error rfl
  | ok value => exact onward value rfl

theorem NoDuplicate.mapM {α β : Type} {f : α → Except Failure β} (each : ∀ x, NoDuplicate (f x))
    (xs : List α) : NoDuplicate (xs.mapM f) := by
  induction xs with
  | nil => exact noDuplicate_ok []
  | cons x rest ih =>
    rw [List.mapM_cons]
    exact (each x).bind fun _ _ => ih.bind fun _ _ => noDuplicate_ok _

namespace ChunkStore

variable {α : Type} {store : ChunkStore α}

theorem noDuplicate_push (store : ChunkStore α) (value : α) : NoDuplicate (store.push value).2 := by
  intro place failed
  simp only [push, reserve, publish] at failed
  split_ifs at failed
  · simp only at failed
    split_ifs at failed <;> cases failed
  · cases failed

theorem Tallied.mem_of_all (tallied : store.Tallied) {indices : List UInt32} (distinct : indices.Nodup)
    (taken : ∀ index ∈ indices, (store.get? index).isSome) (all : store.size ≤ indices.length)
    {index : UInt32} (filled : (store.get? index).isSome) : index ∈ indices := by
  obtain ⟨slots, count, exactly⟩ := tallied
  have sub : indices.toFinset ⊆ slots := fun other member =>
    (exactly other).mpr (taken other (List.mem_toFinset.mp member))
  have same : indices.toFinset = slots := by
    refine Finset.eq_of_subset_of_card_le sub ?_
    rwa [count, List.toFinset_card_of_nodup distinct]
  exact List.mem_toFinset.mp (same ▸ (exactly index).mpr filled)

end ChunkStore

theorem Arena.noDuplicate_publish (arena : Arena) (draft : Draft) : NoDuplicate (arena.publish draft) := by
  intro place failed
  simp only [publish, ChunkStore.publish] at failed
  split_ifs at failed <;> cases failed

namespace Table

variable {ι α : Type} {draft : Draft} {place : DuplicatePlace}

/-- An insert ends with the report of an entry with an equal key if the question where its entry
belongs does. -/
theorem takeIn_duplicate_iff {question : Table ι → Except Failure α}
    {change : α → Table ι → Except Failure (Table ι)}
    (firm : ∀ answer published, NoDuplicate (change answer published)) (table : Table ι) :
    (takeIn draft question change table).2 = .error (.duplicateKey place) ↔
      question table = .error (.duplicateKey place) := by
  have publishes : NoDuplicate (table.publish draft) :=
    (table.shelf.arena.noDuplicate_publish draft).bind fun _ _ => noDuplicate_ok _
  cases asked : question table with
  | error failure => simp only [takeIn, asked, Except.error.injEq]
  | ok answer =>
    refine iff_of_false ?_ (by rintro ⟨⟩)
    cases stored : table.publish draft with
    | error failure =>
      simp only [takeIn, asked, stored]
      exact publishes.error stored place
    | ok published =>
      cases done : change answer published with
      | error failure =>
        simp only [takeIn, asked, stored, done, commit]
        exact (firm answer published).error done place
      | ok changed =>
        simp only [takeIn, asked, stored, done, commit]
        rintro ⟨⟩

theorem asWriter_answer (kind : TableKind) (insert : Table ι → Outcome (Table ι) Unit) {table : Table ι}
    (opened : table.isReadOnly = false) (vacant : table.gate.occupied = false) :
    (asWriter kind insert table).2 = (insert { table with gate := ⟨false, true⟩ }).2 := by
  rw [asWriter_open kind insert opened vacant]

theorem asWriter_vacant (kind : TableKind) (insert : Table ι → Outcome (Table ι) Unit) {table : Table ι}
    (vacant : table.gate.occupied = false) : (asWriter kind insert table).1.gate.occupied = false := by
  rcases asWriter_cases kind insert table with ⟨_, _, kept⟩ | ⟨_, _, _, left, _⟩
  · rw [kept]
    exact vacant
  · rw [left]
    rfl

end Table

namespace Placement

def bucketOfEntry (placement : Placement) (count : Nat) (entry : Bytes) : Except Failure Nat := do
  placement.bucketOf count (← entryUserKey entry)

theorem bucketOf_lt {placement : Placement} {count bucket : Nat} {userKey : Bytes}
    (place : placement.bucketOf count userKey = .ok bucket) : bucket < count := by
  obtain ⟨group, _, place⟩ := bind_eq_ok.mp place
  by_cases none : count = 0
  · simp only [none, if_true] at place
    cases place
  · simp only [none, if_false] at place
    cases place
    exact Nat.mod_lt _ (Nat.pos_of_ne_zero none)

theorem noDuplicate_bucketOf {placement : Placement}
    (own : ∀ userKey, NoDuplicate (placement.rule.cutDown userKey)) (count : Nat) (userKey : Bytes) :
    NoDuplicate (placement.bucketOf count userKey) := by
  have groups : NoDuplicate (placement.rule.groupOf userKey) := by
    rw [PrefixRule.groupOf]
    split
    · exact own userKey
    · exact noDuplicate_ok userKey
  refine groups.bind fun group _ => ?_
  by_cases none : count = 0
  · simp only [none, if_true]
    exact fun place => by rintro ⟨⟩
  · simp only [none, if_false]
    exact noDuplicate_ok _

end Placement

namespace SkipList

theorem noDuplicate_insertAt (list : SkipList) (nodes : NodeStore) (heights : Heights) (splice : Splice)
    (handle : Handle) : NoDuplicate (list.insertAt nodes heights splice handle) := by
  have links : ∀ level place, NoDuplicate (list.link nodes place level) := by
    intro level place
    have found : NoDuplicate (list.links nodes place) := by
      cases place with
      | none => exact noDuplicate_ok _
      | some id =>
        simp only [SkipList.links, node]
        cases nodes.get? id with
        | none => exact fun place => by rintro ⟨⟩
        | some tower => exact noDuplicate_ok _
    refine found.bind fun links _ => ?_
    cases links[level]? with
    | none => exact fun place => by rintro ⟨⟩
    | some target => exact noDuplicate_ok _
  refine (NoDuplicate.mapM (fun level => links level _) _).bind fun next _ => ?_
  have pushes := nodes.noDuplicate_push ⟨handle, next⟩
  generalize nodes.push ⟨handle, next⟩ = pushed at pushes
  obtain ⟨stored, failure | id⟩ := pushed
  · exact pushes.error rfl
  · exact noDuplicate_ok _

end SkipList

theorem Shelf.Gap.untied {shelf : Shelf} {keys : Bytes → Prop} {entry : Bytes} {rows first rest : List Row}
    {entries front back : List Bytes} (gap : shelf.Gap entry rows entries first rest front back)
    (total : shelf.order.TotalOn keys) (readable : ∀ other ∈ entries, HasKey keys other)
    (hasKey : HasKey keys entry) (above : ∀ other ∈ back, shelf.order.Below entry other) :
    ∀ other ∈ entries, ¬ shelf.order.Ties other entry := by
  intro other member ties
  rcases List.mem_append.mp (gap.entries ▸ member) with inFront | inBack
  · cases (gap.below other inFront).symm.trans ties
  · cases (above other inBack).symm.trans (total.ties_symm (readable other member) hasKey ties)

variable {keys : Bytes → Prop} {taken : List Bytes} {rows : Nat → List Row} {held : Nat → List Bytes}
  {entry userKey : Bytes} {draft : Draft}

namespace HashedChainTable

variable {table : HashedChainTable}

/-- The place of an entry is refused as a duplicate exactly if an entry in its bucket ties with it. -/
theorem placeFor_duplicate_iff (arranges : table.index.Arranges table.shelf rows held taken)
    (total : table.shelf.order.TotalOn keys) (readable : ∀ entry ∈ taken, HasKey keys entry)
    (own : ∀ userKey, NoDuplicate (table.index.placement.rule.cutDown userKey))
    (hasKey : HasKey keys entry) (user : entryUserKey entry = .ok userKey) :
    (∃ place, table.placeFor entry = .error (.duplicateKey place)) ↔
      ∃ bucket, table.index.bucketOf userKey = .ok bucket ∧
        ∃ other ∈ held bucket, table.shelf.order.Ties other entry := by
  simp only [placeFor, user, bind, Except.bind]
  cases found : table.index.bucketOf userKey with
  | error failure =>
    refine iff_of_false ?_ ?_
    · rintro ⟨place, failed⟩
      exact (Placement.noDuplicate_bucketOf own _ userKey).error found place failed
    · rintro ⟨_, other, _⟩
      cases other
  | ok bucket =>
    have readable : ∀ other ∈ held bucket, HasKey keys other := fun other member =>
      readable other (arranges.1.mem_iff.mpr ⟨bucket, member⟩)
    have chain : table.index.chainOf bucket = .ok (rows bucket) :=
      (arranges.1.linked bucket).chain_eq arranges.2
    simp only [chain, Except.ok.injEq, exists_eq_left']
    obtain ⟨first, rest, smaller, greater, gap, ⟨refused, ties⟩ | ⟨accepted, above⟩⟩ :=
      ChainStore.gapIn_cases total (arranges.1.reads bucket) readable (arranges.1.sorted bucket) hasKey
    · simp only [refused]
      exact iff_of_true ⟨_, rfl⟩ ties
    · simp only [accepted]
      refine iff_of_false ?_ ?_
      · rintro ⟨place, failed⟩
        cases failed
      · rintro ⟨other, member, ties⟩
        exact gap.untied total readable hasKey above other member ties

theorem insert_duplicate_iff (opened : table.isReadOnly = false) (vacant : table.gate.occupied = false)
    {place : DuplicatePlace} : (insert draft table).2 = .error (.duplicateKey place) ↔
      table.placeFor draft.bytes = .error (.duplicateKey place) := by
  rw [insert, Table.asWriter_answer _ _ opened vacant, Table.takeIn_duplicate_iff]
  · rfl
  · rintro ⟨bucket, gap⟩ published
    have links : NoDuplicate (published.index.link bucket gap draft.handle) := by
      have pushes := published.index.nodes.noDuplicate_push ⟨draft.handle, gap.2⟩
      simp only [HashedChainIndex.link]
      generalize published.index.nodes.push ⟨draft.handle, gap.2⟩ = pushed at pushes ⊢
      obtain ⟨stored, failure | id⟩ := pushed
      · exact pushes.error rfl
      · exact noDuplicate_ok _
    exact links.bind fun _ _ => noDuplicate_ok _

/-- Every insert that succeeds makes one node. -/
theorem size_insert (draft : Draft) (table : HashedChainTable) :
    (insert draft table).1.index.nodes.size
      = table.index.nodes.size + (gained draft (insert draft table).2).length := by
  rcases Table.asWriter_takeIn .hashedChains draft (placeFor · draft.bytes) _ table with
    ⟨failure, failed, stays⟩ |
      ⟨gate, ⟨bucket, gap⟩, published, changed, _, _, stored, done, inserted, _, index, _⟩
  · rw [insert, failed, stays.index]
    rfl
  · rw [insert, inserted, ← index]
    obtain ⟨arena, _, rfl⟩ := Table.publish_ok stored
    obtain ⟨linked, relinked, same⟩ := bind_eq_ok.mp done
    cases same
    simp only [HashedChainIndex.link] at relinked
    cases pushed : table.index.nodes.push ⟨draft.handle, gap.2⟩ with
    | mk nodes answer =>
      rw [pushed] at relinked
      cases answer with
      | error failure => cases relinked
      | ok id =>
        cases relinked
        have size := (ChunkStore.push_ok pushed).2.1
        cases behind : gap.1 <;> simpa [HashedChainIndex.relink, behind, gained] using size

end HashedChainTable

namespace HashedSkipTable

variable {table : HashedSkipTable}

/-- Nothing goes on in a list that is offered to an entry which would be reported as a duplicate. -/
theorem noDuplicate_offer (own : ∀ userKey, NoDuplicate (table.index.placement.rule.cutDown userKey))
    (user : entryUserKey entry = .ok userKey) : NoDuplicate (table.offer entry) := by
  simp only [offer, user]
  refine (Placement.noDuplicate_bucketOf own _ userKey).bind fun bucket _ => ?_
  cases table.index.buckets.get? bucket with
  | some list => exact noDuplicate_ok _
  | none =>
    have sizes : NoDuplicate table.index.listSize := by
      simp only [HashedSkipIndex.listSize]
      split
      · exact noDuplicate_ok _
      · exact fun place => by rintro ⟨⟩
    refine sizes.bind fun taken _ => NoDuplicate.bind ?_ fun list _ => noDuplicate_ok _
    simp only [SkipList.create]
    split
    · exact fun place => by rintro ⟨⟩
    · split
      · exact fun place => by rintro ⟨⟩
      · exact noDuplicate_ok _

/-- The place of an entry in the list of its bucket is refused as a duplicate exactly if an entry in
that bucket ties with it. -/
theorem spliceFor_duplicate_iff (arranges : table.index.Arranges table.shelf rows held taken)
    (total : table.shelf.order.TotalOn keys) (readable : ∀ entry ∈ taken, HasKey keys entry)
    (hasKey : HasKey keys entry) (user : entryUserKey entry = .ok userKey) :
    (∃ place bucket list taken, table.offer entry = .ok (bucket, list, taken) ∧
        list.spliceFor table.index.nodes table.shelf entry = .error (.duplicateKey place)) ↔
      ∃ bucket, table.index.bucketOf userKey = .ok bucket ∧
        ∃ other ∈ held bucket, table.shelf.order.Ties other entry := by
  have readableIn : ∀ bucket, ∀ other ∈ held bucket, HasKey keys other := fun bucket other member =>
    readable other (arranges.1.mem_iff.mpr ⟨bucket, member⟩)
  constructor
  · rintro ⟨place, bucket, list, taken, offered, refused⟩
    obtain ⟨linked, other, same, found⟩ := offer_ok arranges offered
    obtain rfl := Except.ok.inj (same.symm.trans user)
    refine ⟨bucket, found, ?_⟩
    obtain ⟨first, rest, smaller, greater, gap, ⟨_, ties⟩ | ⟨accepted, _⟩⟩ :=
      linked.spliceFor_cases arranges.2 total (arranges.1.reads bucket) (readableIn bucket)
        (arranges.1.sorted bucket) hasKey
    · exact ties
    · cases accepted.symm.trans refused
  · rintro ⟨bucket, found, other, member, ties⟩
    -- The bucket has an entry and so a list.
    obtain ⟨list, present⟩ : ∃ list, table.index.buckets.get? bucket = some list := by
      cases present : table.index.buckets.get? bucket with
      | some list => exact ⟨list, rfl⟩
      | none =>
        rw [arranges.1.vacant bucket present] at member
        cases member
    have offered : table.offer entry = .ok (bucket, list, 0) := by
      simp only [offer, user, found, bind, Except.bind, present, pure, Except.pure]
    obtain ⟨first, rest, smaller, greater, gap, ⟨refused, _⟩ | ⟨_, above⟩⟩ :=
      (offer_ok arranges offered).1.spliceFor_cases arranges.2 total (arranges.1.reads bucket)
        (readableIn bucket) (arranges.1.sorted bucket) hasKey
    · exact ⟨_, bucket, list, 0, offered, refused⟩
    · exact absurd ties (gap.untied total (readableIn bucket) hasKey above other member)

/-- An insert into a table that takes entries reports a duplicate if the search in the list of the
bucket does. -/
theorem insert_duplicate_iff (opened : table.isReadOnly = false) (vacant : table.gate.occupied = false)
    (offers : NoDuplicate (table.offer draft.bytes)) {place : DuplicatePlace} :
    (insert draft table).2 = .error (.duplicateKey place) ↔
      ∃ bucket list taken, table.offer draft.bytes = .ok (bucket, list, taken) ∧
        list.spliceFor table.index.nodes table.shelf draft.bytes = .error (.duplicateKey place) := by
  rw [insert, Table.asWriter_answer _ _ opened vacant]
  have same : offer { table with gate := ⟨false, true⟩ } draft.bytes = table.offer draft.bytes := rfl
  simp only [same]
  cases offered : table.offer draft.bytes with
  | error failure =>
    refine iff_of_false (fun failed => offers.error offered place failed) ?_
    rintro ⟨_, _, _, ⟨⟩, _⟩
  | ok offer =>
    obtain ⟨bucket, list, taken⟩ := offer
    simp only [insertInto]
    refine (Table.takeIn_duplicate_iff (fun splice published =>
      (list.noDuplicate_insertAt _ _ _ _).bind fun _ _ => noDuplicate_ok _) _).trans ?_
    constructor
    · exact fun refused => ⟨bucket, list, taken, rfl, refused⟩
    · rintro ⟨_, _, _, ⟨⟩, refused⟩
      exact refused

/-- Every insert that succeeds makes one node. -/
theorem size_insert (draft : Draft) (table : HashedSkipTable) :
    (insert draft table).1.index.nodes.size
      = table.index.nodes.size + (gained draft (insert draft table).2).length := by
  rcases Table.asWriter_cases .hashedSkipLists _ table with
    ⟨failure, _, kept⟩ | ⟨gate, _, ⟨_, index, _⟩, _, answer⟩
  · rw [insert, kept]
    rfl
  · rw [insert, answer, ← index]
    cases offered : offer { table with gate } draft.bytes with
    | error failure => rfl
    | ok offer =>
      obtain ⟨bucket, list, taken⟩ := offer
      simp only [insertInto]
      rcases Table.takeIn_stays draft _ _ (setList { table with gate } bucket list) with
        ⟨failure, failed, stays⟩ | ⟨splice, published, changed, _, stored, done, taken⟩
      · rw [failed, stays.index]
        rfl
      · rw [taken]
        obtain ⟨arena, _, rfl⟩ := Table.publish_ok stored
        obtain ⟨⟨nodes, longer, height⟩, linked, same⟩ := bind_eq_ok.mp done
        cases same
        obtain ⟨_, new, enters⟩ := SkipList.insertAt_enters linked
        exact enters.size

end HashedSkipTable

namespace Arranged

variable {α β : Type} {shelf : Shelf} {placement : Placement} {slots : Sparse β}
  {linked : Nat → List Row → Prop} {bucket : Nat}

theorem exists_bucket (arranged : Arranged shelf placement slots linked rows held taken) :
    ∀ entry ∈ taken, ∃ bucket < slots.size, placement.bucketOfEntry slots.size entry = .ok bucket := by
  intro entry member
  obtain ⟨bucket, inBucket⟩ := arranged.mem_iff.mp member
  obtain ⟨userKey, user, place⟩ := arranged.placed bucket entry inBucket
  exact ⟨bucket, Placement.bucketOf_lt place, bind_eq_ok.mpr ⟨userKey, user, place⟩⟩

/-- A bucket holds the entries that are placed in it. -/
theorem perm_filter (arranged : Arranged shelf placement slots linked rows held taken)
    (total : shelf.order.TotalOn keys) (readable : ∀ entry ∈ taken, HasKey keys entry)
    (untied : shelf.order.Untied taken) (bucket : Nat) :
    (held bucket).Perm
      (taken.filter fun entry => placement.bucketOfEntry slots.size entry = .ok bucket) := by
  have distinct : ∀ {entries : List Bytes}, shelf.order.Untied entries →
      (∀ entry ∈ entries, HasKey keys entry) → entries.Nodup := by
    intro entries untied readable
    refine untied.imp_of_mem ?_
    intro a b inA _ apart same
    exact apart (same ▸ total.ties_self (readable a inA))
  refine (List.perm_ext_iff_of_nodup (distinct (arranged.sorted bucket).untied fun entry member =>
    readable entry (arranged.mem_iff.mpr ⟨bucket, member⟩)) ((distinct untied readable).filter _)).mpr ?_
  intro entry
  rw [List.mem_filter, decide_eq_true_iff]
  constructor
  · intro member
    obtain ⟨userKey, user, place⟩ := arranged.placed bucket entry member
    exact ⟨arranged.mem_iff.mpr ⟨bucket, member⟩, bind_eq_ok.mpr ⟨userKey, user, place⟩⟩
  · rintro ⟨member, place⟩
    obtain ⟨userKey, user, place⟩ := bind_eq_ok.mp place
    exact arranged.mem_bucket place member user

/-- If there are no more nodes than entries, each node is on a row of a bucket. -/
theorem mem_rows (arranged : Arranged shelf placement slots linked rows held taken)
    {nodes : ChunkStore α} (tallied : nodes.Tallied) (all : nodes.size = taken.length)
    (distinct : ∀ bucket, (ids (rows bucket)).Nodup)
    (stored : ∀ bucket, ∀ id ∈ ids (rows bucket), (nodes.get? id).isSome) {id : NodeId}
    (filled : (nodes.get? id).isSome) : ∃ bucket, id ∈ ids (rows bucket) := by
  have apart : (slots.keys.flatMap fun bucket => ids (rows bucket)).Nodup := by
    refine List.nodup_flatMap.mpr ⟨fun bucket _ => distinct bucket, slots.nodup_keys.imp ?_⟩
    intro bucket other different
    exact fun id member => arranged.disjoint different id member
  have size : (slots.keys.flatMap fun bucket => ids (rows bucket)).length = taken.length := by
    rw [← arranged.all.length_eq, contents, List.length_flatMap, List.length_flatMap]
    refine congrArg _ (List.map_congr_left fun bucket _ => ?_)
    simpa using (arranged.reads bucket).length_eq
  have member := tallied.mem_of_all apart (fun other member => by
    obtain ⟨bucket, _, inRows⟩ := List.mem_flatMap.mp member
    exact stored bucket other inRows) (all.trans size.symm).le filled
  obtain ⟨bucket, _, inRows⟩ := List.mem_flatMap.mp member
  exact ⟨bucket, inRows⟩

/-- A node has a handle exactly if both stand on a row of a bucket. -/
theorem handle_iff (arranged : Arranged shelf placement slots linked rows held taken)
    {nodes : ChunkStore α} (tallied : nodes.Tallied) (all : nodes.size = taken.length)
    (distinct : ∀ bucket, (ids (rows bucket)).Nodup) {handleOf : α → Handle}
    (stored : ∀ bucket, ∀ row ∈ rows bucket, (nodes.get? row.1).map handleOf = some row.2)
    (id : NodeId) (handle : Handle) :
    (nodes.get? id).map handleOf = some handle ↔ ∃ bucket, (id, handle) ∈ rows bucket := by
  constructor
  · intro found
    have filled : (nodes.get? id).isSome := by
      obtain ⟨node, present, _⟩ := Option.map_eq_some_iff.mp found
      simp [present]
    obtain ⟨bucket, member⟩ := arranged.mem_rows tallied all distinct (fun bucket id member => by
      obtain ⟨row, inRows, rfl⟩ := List.mem_map.mp member
      simpa using congrArg Option.isSome (stored bucket row inRows)) filled
    obtain ⟨row, inRows, rfl⟩ := List.mem_map.mp member
    obtain rfl := Option.some.inj ((stored bucket row inRows).symm.trans found)
    exact ⟨bucket, inRows⟩
  · rintro ⟨bucket, member⟩
    exact stored bucket (id, handle) member

end Arranged

namespace MemTable

variable {order : KeyOrder} {table : MemTable} {placement : Placement} {count : Nat}

/-- The number of nodes of a table. -/
def nodeCount : MemTable → Nat
  | skipList table => table.index.nodes.size
  | hashedSkipLists table => table.index.nodes.size
  | hashedChains table => table.index.nodes.size
  | vector _ | cuckoo _ => 0

/-- What links to the next node in a bucket: the node in front of it, or the bucket itself. Of the links
in a skip list, those on its lowest level lead through all nodes. -/
def linkBehind (table : MemTable) (bucket : Nat) : Option NodeId → Option (Option NodeId) :=
  match table with
  | hashedSkipLists table =>
    ((table.index.buckets.get? bucket).getD { head := [none] }).linkAt table.index.nodes 0
  | hashedChains table => ChainStore.linkAt table.index.nodes (table.index.heads.get? bucket)
  | skipList _ | vector _ | cuckoo _ => fun _ => none

/-- The handle in a node of a table with buckets. -/
def handleAt (table : MemTable) (id : NodeId) : Option Handle :=
  match table with
  | hashedSkipLists table => (table.index.nodes.get? id).map TowerNode.handle
  | hashedChains table => (table.index.nodes.get? id).map ChainNode.handle
  | skipList _ | vector _ | cuckoo _ => none

section Bucketed

variable (bucketed : table.kind = .hashedSkipLists ∨ table.kind = .hashedChains)
include bucketed

/-- Every successful insert makes one node, and nothing else does. -/
theorem nodeCount_perform (operation : Operation) :
    (table.perform operation).nodeCount = table.nodeCount + (table.added operation).length := by
  cases table with
  | hashedSkipLists table =>
    cases operation with
    | insert draft => exact HashedSkipTable.size_insert draft table
    | get key goesOn =>
      simp only [MemTable.perform, MemTable.get]
      cases key.userKey <;> rfl
    | allocate size | contains key | openCursor range | close => rfl
  | hashedChains table =>
    cases operation with
    | insert draft => exact HashedChainTable.size_insert draft table
    | get key goesOn =>
      simp only [MemTable.perform, MemTable.get]
      cases key.userKey <;> rfl
    | allocate size | contains key | openCursor range | close => rfl
  | skipList table | vector table | cuckoo table => simp [MemTable.kind] at bucketed

theorem vacant_perform (vacant : table.gate.occupied = false) (operation : Operation) :
    (table.perform operation).gate.occupied = false := by
  cases table with
  | hashedSkipLists table | hashedChains table =>
    cases operation with
    | insert draft => exact Table.asWriter_vacant _ _ vacant
    | get key goesOn =>
      simp only [MemTable.perform, MemTable.get]
      cases key.userKey <;> exact vacant
    | allocate size | contains key | openCursor range | close => exact vacant
  | skipList table | vector table | cuckoo table => simp [MemTable.kind] at bucketed

theorem nodeCount_run (operations : List Operation) :
    (table.run operations).nodeCount = table.nodeCount + (accepted table operations).length := by
  induction operations generalizing table with
  | nil => rfl
  | cons operation rest ih =>
    have later := ih ((kind_perform table operation).symm ▸ bucketed)
    rw [nodeCount_perform bucketed, Nat.add_assoc, ← List.length_append] at later
    exact later

theorem vacant_run (vacant : table.gate.occupied = false) (operations : List Operation) :
    (table.run operations).gate.occupied = false := by
  induction operations generalizing table with
  | nil => exact vacant
  | cons operation rest ih =>
    exact ih ((kind_perform table operation).symm ▸ bucketed) (vacant_perform bucketed vacant operation)

end Bucketed

/-- The buckets of a table hold exactly the stored entries: each entry has a bucket and is in that one
alone, the path of nodes in a bucket goes through its entries in strictly ascending order, passes no
node twice and ends, and every node is on the path of one bucket. -/
structure Bucketed (table : MemTable) (order : KeyOrder) (placement : Placement) (count : Nat)
    (stored : List Bytes) (rows : Nat → List Row) (held : Nat → List Bytes) : Prop where
  placed : ∀ entry ∈ stored, ∃ bucket < count, placement.bucketOfEntry count entry = .ok bucket
  holds : ∀ bucket,
    (held bucket).Perm (stored.filter fun entry => placement.bucketOfEntry count entry = .ok bucket)
  sorted : ∀ bucket, order.Sorted (held bucket)
  reads : ∀ bucket, table.shelf.Reads (handlesOf (rows bucket)) (held bucket)
  leads : ∀ bucket, Leads (table.linkBehind bucket) none (ids (rows bucket))
  distinct : ∀ bucket, (ids (rows bucket)).Nodup
  disjoint : ∀ {bucket other}, bucket ≠ other → (ids (rows bucket)).Disjoint (ids (rows other))
  nodes : ∀ id handle, table.handleAt id = some handle ↔ ∃ bucket, (id, handle) ∈ rows bucket

variable {taken : List Bytes}

/-- What a table with buckets holds is in its buckets, and no node is anywhere else. -/
theorem Holds.bucketed (holds : table.Holds order (some (placement, count)) taken)
    (total : order.TotalOn keys) (readable : ∀ entry ∈ taken, HasKey keys entry)
    (sameUser : ∀ a ∈ taken, ∀ b ∈ taken, order.Ties a b → entryUserKey a = entryUserKey b)
    (all : table.nodeCount = taken.length) :
    ∃ rows held, table.Bucketed order placement count taken rows held := by
  obtain ⟨rfl, placed, index⟩ := holds
  cases table with
  | cuckoo table => exact index.elim
  | skipList table | vector table => cases placed
  | hashedChains table =>
    obtain ⟨rfl, rfl⟩ := Prod.mk.inj (Option.some.inj placed)
    obtain ⟨rows, held, arranged, tallied⟩ := index
    have untied := arranged.untied total readable sameUser
    have distinct := fun bucket => (arranged.linked bucket).distinct
    refine ⟨rows, held, arranged.exists_bucket, arranged.perm_filter total readable untied,
      arranged.sorted, arranged.reads, fun bucket => (arranged.linked bucket).leads, distinct,
      fun different id member => arranged.disjoint different id member,
      arranged.handle_iff tallied all distinct fun bucket row member => ?_⟩
    obtain ⟨node, found, handle⟩ := (arranged.linked bucket).stored row member
    rw [found, Option.map_some, handle]
  | hashedSkipLists table =>
    obtain ⟨rfl, rfl⟩ := Prod.mk.inj (Option.some.inj placed)
    obtain ⟨rows, held, arranged, tallied⟩ := index
    have untied := arranged.untied total readable sameUser
    have distinct := fun bucket => (arranged.linked bucket).distinct
    refine ⟨rows, held, arranged.exists_bucket, arranged.perm_filter total readable untied,
      arranged.sorted, arranged.reads, fun bucket => ?_, distinct,
      fun different id member => arranged.disjoint different id member,
      arranged.handle_iff tallied all distinct fun bucket row member => ?_⟩
    · have linked := arranged.linked bucket
      have lowest := linked.lanes 0 (Nat.lt_of_lt_of_le linked.levels.1 linked.levels.2)
      rwa [linked.lane_zero fun _ member => member] at lowest
    · obtain ⟨node, found, handle, _⟩ := (arranged.linked bucket).stored row member
      rw [found, Option.map_some, handle]

/-- An insert of an entry with a key reports a duplicate exactly if the table holds an entry that ties
with it, in whatever bucket. -/
theorem Holds.insert_duplicate_iff (holds : table.Holds order (some (placement, count)) taken)
    (total : order.TotalOn HasTag) (readable : ∀ entry ∈ taken, HasKey HasTag entry)
    (sameUser : ∀ a b, HasKey HasTag a → HasKey HasTag b → order.Ties a b →
      entryUserKey a = entryUserKey b)
    (own : ∀ userKey, NoDuplicate (placement.rule.cutDown userKey))
    (vacant : table.gate.occupied = false) (opened : table.isReadOnly = false) {draft : Draft}
    (hasKey : HasKey HasTag draft.bytes) :
    (∃ place, (table.insert draft).2 = .error (.duplicateKey place)) ↔
      ∃ entry ∈ taken, order.Ties entry draft.bytes := by
  obtain ⟨key, cut, tagged⟩ := hasKey
  have user := entryUserKey_eq cut tagged
  have hasKey : HasKey HasTag draft.bytes := ⟨key, cut, tagged⟩
  -- An entry that ties with the draft is in the bucket of the draft, since it has the same user key.
  have anywhere : ∀ {β : Type} {slots : Sparse β} {linked : Nat → List Row → Prop} {rows held},
      Arranged table.shelf placement slots linked rows held taken →
      ((∃ bucket, placement.bucketOf slots.size (userPart key) = .ok bucket ∧
        ∃ other ∈ held bucket, order.Ties other draft.bytes) ↔
          ∃ entry ∈ taken, order.Ties entry draft.bytes) := by
    intro β slots linked rows held arranged
    constructor
    · rintro ⟨bucket, _, other, member, ties⟩
      exact ⟨other, arranged.mem_iff.mpr ⟨bucket, member⟩, ties⟩
    · rintro ⟨entry, member, ties⟩
      obtain ⟨bucket, inBucket⟩ := arranged.mem_iff.mp member
      obtain ⟨userKey, found, place⟩ := arranged.placed bucket entry inBucket
      have same := (sameUser entry _ (readable entry member) hasKey ties).trans user
      obtain rfl := Except.ok.inj (found.symm.trans same)
      exact ⟨bucket, place, entry, inBucket, ties⟩
  obtain ⟨rfl, placed, index⟩ := holds
  cases table with
  | cuckoo table => exact index.elim
  | skipList table | vector table => cases placed
  | hashedChains table =>
    obtain ⟨rfl, rfl⟩ := Prod.mk.inj (Option.some.inj placed)
    obtain ⟨rows, held, arranges⟩ := index
    refine Iff.trans ?_ (anywhere arranges.1)
    refine Iff.trans ?_ (HashedChainTable.placeFor_duplicate_iff arranges total readable own hasKey user)
    exact exists_congr fun place => HashedChainTable.insert_duplicate_iff opened vacant
  | hashedSkipLists table =>
    obtain ⟨rfl, rfl⟩ := Prod.mk.inj (Option.some.inj placed)
    obtain ⟨rows, held, arranges⟩ := index
    refine Iff.trans ?_ (anywhere arranges.1)
    refine Iff.trans ?_ (HashedSkipTable.spliceFor_duplicate_iff arranges total readable hasKey user)
    exact exists_congr fun place => HashedSkipTable.insert_duplicate_iff opened vacant
      (HashedSkipTable.noDuplicate_offer own user)

theorem Fresh.nodeCount_eq (fresh : Fresh order table) :
    table.nodeCount = 0 ∧ table.gate.occupied = false := by
  refine ⟨?_, (Made.ordered fresh).sound.vacant⟩
  cases fresh with
  | skipList heights ordered => rfl
  | vector ordered made => rfl
  | hashedSkipLists ordered made =>
    obtain ⟨_, _, same⟩ := bind_eq_ok.mp made
    cases same
    rfl
  | hashedChains ordered made =>
    obtain ⟨_, _, same⟩ := bind_eq_ok.mp made
    cases same
    split <;> rfl

/-- Whatever was done to a table with buckets, they hold exactly the entries of the inserts that
succeeded, each in the bucket of its user key, in order. While the table takes entries, inserting one
that has a key is refused as a duplicate exactly if an entry with an equal key is stored, in whatever
bucket. -/
theorem buckets_hold_accepted (fresh : Fresh order table)
    (placed : table.placing = some (placement, count)) (total : order.TotalOn HasTag)
    (sameUser : ∀ {a b}, HasTag a → HasTag b → order.compareKeys a b = .ok .eq →
      userKeyOf a = userKeyOf b)
    (own : ∀ userKey, NoDuplicate (placement.rule.cutDown userKey)) (operations : List Operation) :
    let now := table.run operations
    let stored := accepted table operations
    (∃ rows held, now.Bucketed order placement count stored rows held) ∧
      (now.isReadOnly = false → ∀ draft, HasKey HasTag draft.bytes →
        ((∃ place, (now.insert draft).2 = .error (.duplicateKey place)) ↔
          ∃ entry ∈ stored, order.Ties entry draft.bytes)) := by
  intro now stored
  have bucketed : table.kind = .hashedSkipLists ∨ table.kind = .hashedChains := by
    cases table with
    | hashedSkipLists table => exact .inl rfl
    | hashedChains table => exact .inr rfl
    | skipList table | vector table | cuckoo table => cases placed
  have readable : ∀ entry ∈ stored, HasKey HasTag entry :=
    accepted_hasTag operations (by rw [placed]; rfl)
  have holds : now.Holds order (some (placement, count)) stored :=
    placed ▸ run_holds fresh total operations readable fun isVector => by
      rcases bucketed with other | other <;> cases isVector.symm.trans other
  have sameUser : ∀ a b, HasKey HasTag a → HasKey HasTag b → order.Ties a b →
      entryUserKey a = entryUserKey b := by
    rintro a b ⟨keyA, cutA, taggedA⟩ ⟨keyB, cutB, taggedB⟩ ties
    rw [KeyOrder.Ties, order.compareEntries_eq cutB, order.compareEntryKey_eq cutA] at ties
    have same := sameUser taggedA taggedB ties
    rw [userKeyOf_eq taggedA, userKeyOf_eq taggedB] at same
    rw [entryUserKey_eq cutA taggedA, entryUserKey_eq cutB taggedB, same]
  obtain ⟨none, vacant⟩ := fresh.nodeCount_eq
  refine ⟨holds.bucketed total readable (fun a inA b inB => sameUser a b (readable a inA) (readable b inB))
    ?_, fun opened draft hasKey => holds.insert_duplicate_iff total readable sameUser own
      (vacant_run bucketed vacant operations) opened hasKey⟩
  rw [nodeCount_run bucketed, none, Nat.zero_add]

/-- Of two user keys of different lengths, placed by their lengths, each has a bucket for itself, and a
second entry with the key of the first is refused. -/
theorem buckets_hold_two_lengths :
    let table := hashedChains {
      shelf := { order := .versioned, arena := { id := 0 } }
      index := {
        placement := { rule := .whole, hash := fun group => .ofNat group.length }
        heads := .empty 2 } }
    let short : Bytes := [9, 0, 0, 0, 97, 1, 1, 0, 0, 0, 0, 0, 0, 0, 0, 0, 0]
    let long : Bytes := [10, 0, 0, 0, 97, 98, 1, 1, 0, 0, 0, 0, 0, 0, 0, 0, 0, 0]
    let valued : Bytes := [9, 0, 0, 0, 97, 1, 1, 0, 0, 0, 0, 0, 0, 1, 0, 0, 0, 7]
    let now := table.run [.insert ⟨0, ⟨0⟩, short⟩, .insert ⟨0, ⟨1⟩, long⟩]
    (∃ rows held, now.Bucketed .versioned ⟨.whole, fun group => .ofNat group.length⟩ 2 [short, long]
      rows held ∧ (held 0).Perm [long] ∧ (held 1).Perm [short]) ∧
        ∃ place, (now.insert ⟨0, ⟨2⟩, valued⟩).2 = .error (.duplicateKey place) := by
  intro table short long valued now
  have both : accepted table [.insert ⟨0, ⟨0⟩, short⟩, .insert ⟨0, ⟨1⟩, long⟩] = [short, long] := by
    decide +kernel
  have fresh : Fresh .versioned table := @Fresh.hashedChains _ _ _ _ 2 0 rfl rfl
  obtain ⟨⟨rows, held, bucketed⟩, duplicates⟩ := buckets_hold_accepted fresh rfl
    KeyOrder.versioned_totalOn
    (fun taggedA taggedB ties => by rw [(KeyOrder.versioned_eq_iff taggedA taggedB).mp ties])
    (fun userKey => noDuplicate_ok userKey) [.insert ⟨0, ⟨0⟩, short⟩, .insert ⟨0, ⟨1⟩, long⟩]
  rw [both] at bucketed duplicates
  have first := bucketed.holds 0
  have second := bucketed.holds 1
  rw [show List.filter _ [short, long] = [long] by decide +kernel] at first
  rw [show List.filter _ [short, long] = [short] by decide +kernel] at second
  refine ⟨⟨rows, held, bucketed, first, second⟩, ?_⟩
  refine (duplicates (by decide +kernel) ⟨0, ⟨2⟩, valued⟩ ⟨[97, 1, 1, 0, 0, 0, 0, 0, 0], rfl, ?_⟩).mpr
    ⟨short, List.mem_cons_self, by decide +kernel⟩
  simp [HasTag, tagSize]

end MemTable

end WriteBuffer
