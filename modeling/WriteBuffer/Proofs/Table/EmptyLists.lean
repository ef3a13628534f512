import Mathlib
import WriteBuffer.Proofs.SkipList.Splice
import WriteBuffer.Proofs.Table.Basic
import WriteBuffer.Proofs.Table.Buckets
import WriteBuffer.Table.HashedSkip

/-!
Lists without nodes. A bucket gets its list when an entry is first offered to it, so an insert that
fails may leave such a list behind. Tables that agree but for these lists (`HashedSkipTable.Alike`)
give the same answers, and inserts keep them alike (`HashedSkipTable.Alike.insert`).
-/
namespace WriteBuffer

namespace Sparse

variable {β : Type} {slots : Sparse β}

theorem mem_cells {index : Nat} {value : β} :
    (index, value) ∈ slots.cells ↔ slots.get? index = some value := by
  refine ⟨fun member => get?_of_mem member, fun found => ?_⟩
  obtain ⟨before, after, parts, _⟩ := List.lookup_eq_some_iff.mp found
  rw [parts]
  exact List.mem_append_right _ List.mem_cons_self

end Sparse

namespace HashedSkipTable

variable {table a b : HashedSkipTable} {draft : Draft} {bucket : Nat} {list : SkipList}

/-- The list that an entry of a bucket is offered to: that of the bucket, or a new one. -/
def listAt (table : HashedSkipTable) (bucket : Nat) : Except Failure SkipList :=
  match table.index.buckets.get? bucket with
  | some list => .ok list
  | none => do
    let _ ← table.index.listSize
    SkipList.create table.index.maxHeight table.index.branching

theorem vacant_listAt (absent : table.index.buckets.get? bucket = none)
    (offered : table.listAt bucket = .ok list) : list.Vacant := by
  simp only [listAt, absent, bind_eq_ok] at offered
  obtain ⟨_, _, made⟩ := offered
  exact SkipList.vacant_create made

/-- Two tables agree but for lists that a bucket would be given anyhow. -/
structure Alike (a b : HashedSkipTable) : Prop where
  shelf : b.shelf = a.shelf
  gate : b.gate = a.gate
  index : b.index = { a.index with buckets := b.index.buckets, listBytes := b.index.listBytes }
  size : b.index.buckets.size = a.index.buckets.size
  lists : ∀ bucket, b.listAt bucket = a.listAt bucket

theorem listAt_setList (table : HashedSkipTable) (bucket other : Nat) (list : SkipList) :
    (setList table bucket list).listAt other
      = if other = bucket then .ok list else table.listAt other := by
  by_cases same : other = bucket
  · simp only [listAt, setList, Sparse.get?_put, same, if_true]
  · simp only [listAt, setList, Sparse.get?_put, same, if_false]
    rfl

/-- An entry is offered to the list of the bucket of its user key. -/
theorem offer_eq (table : HashedSkipTable) (entry : Bytes) :
    (offer table entry).map (fun offered => (offered.1, offered.2.1)) = do
      let bucket ← table.index.bucketOf (← entryUserKey entry)
      return (bucket, ← table.listAt bucket) := by
  simp only [offer, listAt, bind, Except.bind, pure, Except.pure]
  cases entryUserKey entry with
  | error failure => rfl
  | ok userKey =>
    simp only
    cases table.index.bucketOf userKey with
    | error failure => rfl
    | ok bucket =>
      simp only
      cases table.index.buckets.get? bucket with
      | some list => rfl
      | none =>
        simp only
        cases table.index.listSize with
        | error failure => rfl
        | ok size =>
          simp only
          cases SkipList.create table.index.maxHeight table.index.branching <;> rfl

theorem listAt_of_offer {entry : Bytes} {taken : Nat}
    (offered : offer table entry = .ok (bucket, list, taken)) : table.listAt bucket = .ok list := by
  have eq := offer_eq table entry
  simp only [offered, Except.map] at eq
  obtain ⟨_, _, other⟩ := bind_eq_ok.mp eq.symm
  simp only [bind_eq_ok, pure, Except.pure, Except.ok.injEq, Prod.mk.injEq] at other
  obtain ⟨_, _, _, found, rfl, rfl⟩ := other
  exact found

/-- Lists can be made in a table, of the height and the rarity that it asks for. -/
def MakesLists (table : HashedSkipTable) : Prop :=
  ∃ list, SkipList.create table.index.maxHeight table.index.branching = .ok list

theorem MakesLists.listAt_ok (makes : table.MakesLists) (bucket : Nat) :
    ∃ list, table.listAt bucket = .ok list := by
  obtain ⟨list, made⟩ := makes
  simp only [listAt]
  cases table.index.buckets.get? bucket with
  | some present => exact ⟨present, rfl⟩
  | none =>
    have low : table.index.maxHeight ≤ heightLimit := by
      by_contra high
      simp [SkipList.create, Nat.lt_of_not_le high] at made
    have size : table.index.listSize = .ok (72 + 4 * table.index.maxHeight) := by
      refine if_pos ?_
      simp only [heightLimit, UInt64.size] at low ⊢
      omega
    exact ⟨list, bind_eq_ok.mpr ⟨_, size, made⟩⟩

theorem MakesLists.offers (makes : table.MakesLists) {entry userKey : Bytes}
    (user : entryUserKey entry = .ok userKey) (place : table.index.bucketOf userKey = .ok bucket) :
    ∃ list taken, offer table entry = .ok (bucket, list, taken) := by
  obtain ⟨list, offered⟩ := makes.listAt_ok bucket
  have same := offer_eq table entry
  simp only [user, place, offered, bind, Except.bind, pure, Except.pure] at same
  cases found : offer table entry with
  | error failure =>
    rw [found] at same
    cases same
  | ok target =>
    obtain ⟨there, other, taken⟩ := target
    simp only [found, Except.map, Except.ok.injEq, Prod.mk.injEq] at same
    obtain ⟨rfl, rfl⟩ := same
    exact ⟨other, taken, rfl⟩

namespace Alike

theorem refl (table : HashedSkipTable) : table.Alike table := ⟨rfl, rfl, rfl, rfl, fun _ => rfl⟩

/-- A table is as it was when a bucket is given the list that it offers anyhow. -/
theorem ofOffered (offered : table.listAt bucket = .ok list) :
    table.Alike (setList table bucket list) where
  shelf := rfl
  gate := rfl
  index := rfl
  size := rfl
  lists other := by
    rw [listAt_setList]
    split
    · next same => rw [same, offered]
    · rfl

theorem nodes (alike : a.Alike b) : b.index.nodes = a.index.nodes := by rw [alike.index]

theorem heights (alike : a.Alike b) : b.index.heights = a.index.heights := by rw [alike.index]

theorem bucketOf_eq (alike : a.Alike b) (userKey : Bytes) :
    b.index.bucketOf userKey = a.index.bucketOf userKey := by
  rw [HashedSkipIndex.bucketOf, HashedSkipIndex.bucketOf, alike.size, alike.index]

theorem setList (alike : a.Alike b) (bucket : Nat) (list : SkipList) :
    (HashedSkipTable.setList a bucket list).Alike (HashedSkipTable.setList b bucket list) where
  shelf := alike.shelf
  gate := alike.gate
  index := by
    simp only [HashedSkipTable.setList]
    rw [alike.index]
  size := alike.size
  lists other := by rw [listAt_setList, listAt_setList, alike.lists]

theorem withNodes (alike : a.Alike b) (shelf : Shelf) (gate : Gate) (nodes : NodeStore)
    (bytesA bytesB : Nat) :
    Alike { a with shelf, gate, index := { a.index with nodes, listBytes := bytesA } }
      { b with shelf, gate, index := { b.index with nodes, listBytes := bytesB } } where
  shelf := rfl
  gate := rfl
  index := by rw [alike.index]
  size := alike.size
  lists := alike.lists

/-- Tables that are alike offer an entry to the same list. -/
theorem offer_cases (alike : a.Alike b) (entry : Bytes) :
    (∃ failure, offer a entry = .error failure ∧ offer b entry = .error failure) ∨
      ∃ bucket list takenA takenB, offer a entry = .ok (bucket, list, takenA) ∧
        offer b entry = .ok (bucket, list, takenB) := by
  have same : (offer b entry).map (fun offered => (offered.1, offered.2.1))
      = (offer a entry).map (fun offered => (offered.1, offered.2.1)) := by
    rw [offer_eq, offer_eq]
    simp only [alike.bucketOf_eq, alike.lists]
  cases inA : offer a entry with
  | error failure =>
    cases inB : offer b entry with
    | error other =>
      simp only [inA, inB, Except.map, Except.error.injEq] at same
      exact .inl ⟨failure, rfl, by rw [same]⟩
    | ok offered => simp [inA, inB, Except.map] at same
  | ok first =>
    cases inB : offer b entry with
    | error other => simp [inA, inB, Except.map] at same
    | ok second =>
      obtain ⟨bucket, list, takenA⟩ := first
      obtain ⟨_, _, takenB⟩ := second
      simp only [inA, inB, Except.map, Except.ok.injEq, Prod.mk.injEq] at same
      obtain ⟨rfl, rfl⟩ := same
      exact .inr ⟨_, _, takenA, takenB, rfl, rfl⟩

/-- Inserts into a given list do the same to tables that are alike. -/
theorem insertInto (alike : a.Alike b) (draft : Draft) (bucket : Nat) (list : SkipList)
    (takenA takenB : Nat) :
    (HashedSkipTable.insertInto draft bucket list takenB b).2
        = (HashedSkipTable.insertInto draft bucket list takenA a).2 ∧
      (HashedSkipTable.insertInto draft bucket list takenA a).1.Alike
        (HashedSkipTable.insertInto draft bucket list takenB b).1 := by
  simp only [HashedSkipTable.insertInto, Table.takeIn, Table.publish, alike.shelf, alike.nodes]
  cases list.spliceFor a.index.nodes a.shelf draft.bytes with
  | error failure => exact ⟨rfl, alike⟩
  | ok splice =>
    cases a.shelf.arena.publish draft with
    | error failure => exact ⟨rfl, alike⟩
    | ok arena =>
      simp only [bind, Except.bind, pure, Except.pure, alike.nodes, alike.heights, alike.gate]
      cases list.insertAt a.index.nodes a.index.heights splice draft.handle with
      | error failure => exact ⟨rfl, rfl, rfl, alike.index, alike.size, alike.lists⟩
      | ok inserted =>
        obtain ⟨nodes, grown, height⟩ := inserted
        exact ⟨rfl, (alike.setList bucket grown).withNodes { a.shelf with arena } a.gate nodes _ _⟩

/-- Inserts have the same outcome in tables that are alike, and keep them so. -/
theorem insert (alike : a.Alike b) (draft : Draft) :
    (HashedSkipTable.insert draft b).2 = (HashedSkipTable.insert draft a).2 ∧
      (HashedSkipTable.insert draft a).1.Alike (HashedSkipTable.insert draft b).1 := by
  simp only [HashedSkipTable.insert, Table.asWriter, alike.gate]
  cases a.gate.enter .hashedSkipLists with
  | error failure => exact ⟨rfl, alike⟩
  | ok gate =>
    have entered : Alike { a with gate } { b with gate } :=
      ⟨alike.shelf, rfl, alike.index, alike.size, alike.lists⟩
    have left : ∀ {x y : HashedSkipTable}, x.Alike y →
        Alike { x with gate := x.gate.leave } { y with gate := y.gate.leave } := fun same =>
      ⟨same.shelf, congrArg Gate.leave same.gate, same.index, same.size, same.lists⟩
    simp only
    rcases entered.offer_cases draft.bytes with
      ⟨failure, inA, inB⟩ | ⟨bucket, list, takenA, takenB, inA, inB⟩
    · rw [inA, inB]
      exact ⟨rfl, left entered⟩
    · rw [inA, inB]
      obtain ⟨answer, now⟩ :=
        (entered.setList bucket list).insertInto draft bucket list takenA takenB
      exact ⟨answer, left now⟩

/-- What is read off the list of a bucket, nothing where there is no node, is the same in tables that
are alike. -/
theorem elim_eq (alike : a.Alike b) {β : Type} {read : SkipList → β} {nothing : β}
    (ofVacant : ∀ list, list.Vacant → read list = nothing) (bucket : Nat) :
    (b.index.buckets.get? bucket).elim nothing read
      = (a.index.buckets.get? bucket).elim nothing read := by
  have same := alike.lists bucket
  cases inA : a.index.buckets.get? bucket with
  | none =>
    cases inB : b.index.buckets.get? bucket with
    | none => rfl
    | some list =>
      have offered : b.listAt bucket = .ok list := by simp only [listAt, inB]
      exact ofVacant list (vacant_listAt inA (same.symm.trans offered))
  | some list =>
    have offered : a.listAt bucket = .ok list := by simp only [listAt, inA]
    cases inB : b.index.buckets.get? bucket with
    | none => exact (ofVacant list (vacant_listAt inB (same.trans offered))).symm
    | some other =>
      simp only [listAt, inA, inB, Except.ok.injEq] at same
      rw [same]

/-- Tables that are alike have the same keys. -/
theorem contains_eq (alike : a.Alike b) (internalKey : Bytes) :
    b.contains internalKey = a.contains internalKey := by
  have read : ∀ table : HashedSkipTable, table.contains internalKey = (do
      let bucket ← table.index.bucketOf (← userKeyOf internalKey)
      Option.elim (table.index.buckets.get? bucket) (.ok false) fun list =>
        list.contains table.index.nodes table.shelf internalKey) := by
    intro table
    simp only [contains, HashedSkipIndex.listOf, bind, Except.bind, pure, Except.pure]
    cases userKeyOf internalKey with
    | error failure => rfl
    | ok userKey =>
      simp only
      cases table.index.bucketOf userKey with
      | error failure => rfl
      | ok bucket =>
        simp only
        cases table.index.buckets.get? bucket <;> rfl
  rw [read, read]
  simp only [alike.bucketOf_eq, alike.nodes, alike.shelf,
    alike.elim_eq fun list vacant => vacant.contains_eq _ _ internalKey]

/-- Lists that hold a node, with their buckets. -/
def stocked (table : HashedSkipTable) : List (Nat × SkipList) :=
  table.index.buckets.cells.filter fun cell => ¬ cell.2.Vacant

/-- Tables that are alike have the same lists with nodes, in the same order. -/
theorem stocked_eq (alike : a.Alike b) : stocked b = stocked a := by
  have ascending : ∀ table : HashedSkipTable, (stocked table).Pairwise (·.1 < ·.1) := fun table =>
    table.index.buckets.ascending.filter _
  have distinct : ∀ table : HashedSkipTable, (stocked table).Nodup := fun table =>
    (ascending table).imp fun less same => Nat.ne_of_lt less (congrArg Prod.fst same)
  have mem : ∀ (table : HashedSkipTable) (cell : Nat × SkipList), cell ∈ stocked table ↔
      (table.index.buckets.get? cell.1).elim none
        (fun list => if list.Vacant then none else some list) = some cell.2 := by
    intro table cell
    rw [stocked, List.mem_filter, Sparse.mem_cells]
    cases table.index.buckets.get? cell.1 with
    | none => simp
    | some list => by_cases vacant : list.Vacant <;> grind
  refine List.Perm.eq_of_pairwise (fun _ _ _ _ less more => absurd less (Nat.lt_asymm more))
    (ascending b) (ascending a) ((List.perm_ext_iff_of_nodup (distinct b) (distinct a)).mpr ?_)
  intro cell
  rw [mem, mem, alike.elim_eq fun list vacant => if_pos vacant]

/-- The handles of the lists that have any, list by list. -/
def runsOf (nodes : NodeStore) (lists : List SkipList) : Except Failure (List (List Handle)) := do
  return (← lists.mapM (·.handles nodes)).filter fun run => !run.isEmpty

theorem runsOf_cons (nodes : NodeStore) (list : SkipList) (rest : List SkipList) :
    runsOf nodes (list :: rest) = (do
      let run ← list.handles nodes
      let runs ← runsOf nodes rest
      return if run.isEmpty then runs else run :: runs) := by
  simp only [runsOf, List.mapM_cons, bind, Except.bind, pure, Except.pure]
  cases list.handles nodes with
  | error _ => rfl
  | ok run =>
    cases rest.mapM (·.handles nodes) with
    | error _ => rfl
    | ok runs => cases run <;> rfl

theorem runsOf_filter (nodes : NodeStore) (cells : List (Nat × SkipList)) :
    runsOf nodes (cells.map (·.2))
      = runsOf nodes ((cells.filter fun cell => ¬ cell.2.Vacant).map (·.2)) := by
  induction cells with
  | nil => rfl
  | cons cell rest ih =>
    rw [List.map_cons, runsOf_cons, ih]
    by_cases vacant : cell.2.Vacant
    · rw [List.filter_cons_of_neg (by simp [vacant]), vacant.handles_eq]
      simp only [bind, Except.bind, pure, Except.pure, List.isEmpty_nil, if_true]
      cases runsOf nodes _ <;> rfl
    · rw [List.filter_cons_of_pos (by simp [vacant]), List.map_cons, runsOf_cons]

theorem merge_runsOf (compare : Handle → Handle → Except Failure Ordering) (nodes : NodeStore)
    (lists : List SkipList) : (do mergeRuns compare (← lists.mapM (·.handles nodes)))
      = (do mergeRuns compare (← runsOf nodes lists)) := by
  rw [runsOf]
  cases lists.mapM (·.handles nodes) with
  | error _ => rfl
  | ok runs => exact (mergeRuns_nonempty runs).symm

theorem sortedHandles_eq (alike : a.Alike b) : b.sortedHandles = a.sortedHandles := by
  have read (table : HashedSkipTable) : table.sortedHandles = (do
      mergeRuns table.shelf.compareHandles
        (← runsOf table.index.nodes ((stocked table).map (·.2)))) := by
    rw [stocked, ← runsOf_filter]
    exact merge_runsOf _ _ _
  rw [read, read, alike.stocked_eq, alike.shelf, alike.nodes]

end Alike

end HashedSkipTable

end WriteBuffer
