import Mathlib
import WriteBuffer.Proofs.SkipList.Paths
import WriteBuffer.Proofs.SkipList.Sessions
import WriteBuffer.Proofs.SkipList.Splice

/-!
Lists on a common node store. Each of them is a list on a store of its own under other names
(`SkipList.Copy.IsOf`), and no node belongs to two of them (`SkipListSession.Sharing`). A handle that
is linked into one list can be linked into its copy in the same way (`SkipList.Copy.IsOf.insertAt`); the
links that change belong to that list, so all other lists stay what their copies are
(`SkipListSession.Sharing.grows`). Every step keeps this, whatever the order of entries and whatever
the heights (`SkipListSession.Sharing.execute`).
-/
namespace WriteBuffer

namespace SkipList

/-- A list on a store of its own, and the names that its nodes have on another store. -/
structure Copy where
  list : SkipList
  nodes : NodeStore
  onNode : NodeId → NodeId

namespace Copy

/-- A list is as its copy, of which every search ends. -/
structure IsOf (copy : Copy) (list : SkipList) (nodes : NodeStore) : Prop where
  renamed : Renamed copy.onNode id copy.list copy.nodes list nodes
  woven : copy.list.Woven copy.nodes
  packed : copy.nodes.Packed
  reserved : copy.nodes.reserved ≤ nodes.reserved
  size : copy.nodes.size ≤ nodes.size

/-- A place of a list and the same place of its copy. -/
abbrev Placed (copy : Copy) (place own : Option NodeId) : Prop :=
  SkipList.Placed copy.onNode copy.nodes place own

variable {copy : Copy} {list longer : SkipList} {nodes grown : NodeStore} {old shelf : Shelf}
  {splice others : Splice} {handle : Handle} {levels : Nat} {heights drawn : Heights} {entry : Bytes}

/-- A list that was just made is its own copy. -/
theorem isOf_create {most branching : Nat} (made : create most branching = .ok list)
    (onNode : NodeId → NodeId) : IsOf ⟨list, .empty, onNode⟩ list .empty where
  renamed := {
    injective := fun inside _ => by
      obtain ⟨node, stored⟩ := within_some.mp inside
      simp at stored
    height := rfl
    maxHeight := rfl
    shapes := fun stored => by simp at stored
    links := by
      intro place inside level
      cases place with
      | none =>
        obtain rfl := create_eq made
        simp only [linkAt, Option.map_none, List.getElem?_replicate]
        split <;> rfl
      | some id =>
        obtain ⟨node, stored⟩ := within_some.mp inside
        simp at stored
    closed := by
      intro level place target linked
      cases place with
      | none =>
        obtain rfl := create_eq made
        simp only [linkAt, List.getElem?_replicate, Option.ite_none_right_eq_some,
          Option.some.injEq] at linked
        exact linked.2 ▸ within_none _
      | some id => simp [linkAt] at linked }
  woven := woven_empty made
  packed := ChunkStore.packed_empty
  reserved := Nat.le_refl _
  size := Nat.le_refl _

/-- A list reflects its copy if all entries of the copy were there before. -/
theorem IsOf.reflects (isOf : copy.IsOf list nodes)
    (published : ∀ {id node}, copy.nodes.get? id = some node →
      ∃ entry, old.arena.get node.handle = .ok entry)
    (extended : old.Extends shelf) :
    Reflects copy.onNode id copy.list copy.nodes old list nodes shelf where
  renamed := isOf.renamed
  steady := isOf.woven.steady isOf.size
  order := extended.order
  entries := by
    intro id node stored
    obtain ⟨entry, read⟩ := published stored
    rw [read]
    exact extended.keeps read

/-- What is linked into a list can be linked into its copy, with a tower of the same height. -/
theorem IsOf.insertAt (isOf : copy.IsOf list nodes)
    (found : copy.list.spliceFor copy.nodes shelf entry = .ok others)
    (placed : List.Forall₂ copy.Placed splice others)
    (done : list.insertAt nodes heights splice handle = .ok (grown, longer, levels))
    (same : drawn copy.nodes.size = heights nodes.size) :
    ∃ grownOwn longerOwn newOwn new,
      copy.list.insertAt copy.nodes drawn others handle = .ok (grownOwn, longerOwn, levels) ∧
      Entering copy.list copy.nodes others handle levels newOwn longerOwn grownOwn ∧
      Entering list nodes splice handle levels new longer grown ∧
      IsOf ⟨longerOwn, grownOwn, Function.update copy.onNode newOwn new⟩ longer grown := by
  obtain ⟨height, new, enters⟩ := insertAt_enters done
  have few := Nat.lt_of_le_of_lt isOf.reserved enters.room
  obtain ⟨⟨grownOwn, longerOwn, levelsOwn⟩, doneOwn⟩ :=
    insertAt_succeeds found drawn handle (isOf.packed.push_succeeds few)
  obtain ⟨heightOwn, newOwn, entersOwn⟩ := insertAt_enters doneOwn
  obtain rfl : levels = levelsOwn := by
    rw [height, heightOwn, isOf.renamed.maxHeight, same]
  refine ⟨grownOwn, longerOwn, newOwn, new, doneOwn, entersOwn, enters, ?_⟩
  exact {
    renamed := isOf.renamed.enters placed entersOwn enters
    woven := isOf.woven.enters entersOwn (heightOwn ▸ Nat.min_le_left ..)
    packed := entersOwn.packed isOf.packed
    reserved := by
      rw [entersOwn.reserved, enters.reserved]
      exact Nat.succ_le_succ isOf.reserved
    size := by
      rw [entersOwn.size, enters.size]
      exact Nat.succ_le_succ isOf.size }

/-- A list stays what its copy is while a handle is linked in behind places of another list. -/
theorem IsOf.frame (isOf : copy.IsOf list nodes) {other longer : SkipList} {new : NodeId}
    (enters : Entering other nodes splice handle levels new longer grown)
    (apart : ∀ {id}, Within copy.nodes (some id) →
      ∀ level, splice.getD level none ≠ some (copy.onNode id)) :
    copy.IsOf list grown where
  renamed := isOf.renamed.frame fun inside => enters.frame _
    (fun same => enters.ne_new (isOf.renamed.within inside) (congrArg some same))
    fun level _ => apart inside level
  woven := isOf.woven
  packed := isOf.packed
  reserved := enters.reserved ▸ Nat.le_succ_of_le isOf.reserved
  size := enters.size ▸ Nat.le_succ_of_le isOf.size

end Copy

end SkipList

namespace SkipListSession

open SkipList (Copy Entering Within)

/-- The lists of a session share a node store. Each is as its copy, and no node belongs to two of
them. -/
structure Sharing (session : SkipListSession) (nodes : NodeStore) (copies : Nat → Copy) : Prop where
  stores : session.stores = [nodes]
  packed : nodes.Packed
  reserved : nodes.reserved = nodes.size
  isOf : ∀ {number : Nat} {list store}, session.lists[number]? = some (list, store) →
    store = 0 ∧ (copies number).IsOf list nodes
  inside : ∀ {number x}, Within (copies number).nodes (some x) →
    Within nodes (some ((copies number).onNode x))
  apart : ∀ {a b x y}, a ≠ b → Within (copies a).nodes (some x) → Within (copies b).nodes (some y) →
    (copies a).onNode x ≠ (copies b).onNode y
  published : ∀ {number id node}, (copies number).nodes.get? id = some node →
    ∃ entry, session.shelf.arena.get node.handle = .ok entry

variable {session next : SkipListSession} {nodes grown : NodeStore} {copies : Nat → Copy}
  {number other : Nat} {list longer : SkipList} {store levels : Nat} {entry : Bytes} {handle : Handle}
  {order : KeyOrder} {before : Shelf} {splice : Splice}

/-- Lists that were just made share a store. -/
theorem Fresh.sharing (new : session.Fresh order) (one : session.stores.length = 1) :
    ∃ copies, session.Sharing .empty copies ∧
      ∀ {number : Nat} {list store}, session.lists[number]? = some (list, store) →
        copies number = ⟨list, .empty, id⟩ := by
  obtain ⟨nodes, only⟩ := List.length_eq_one_iff.mp one
  have first : session.stores[0]? = some nodes := by rw [only]; rfl
  obtain rfl : nodes = .empty := new.stores first
  let copies : Nat → Copy := fun number =>
    ⟨(session.lists[number]?.map Prod.fst).getD { head := [] }, .empty, id⟩
  have nowhere : ∀ {number x}, ¬ Within (copies number).nodes (some x) := by
    simp [Within, copies]
  refine ⟨copies, ⟨only, ChunkStore.packed_empty, rfl, ?_, ?_, ?_, ?_⟩, ?_⟩
  · intro number list store listed
    obtain ⟨⟨most, branching, made⟩, stored⟩ := new.lists listed
    have low := (List.getElem?_eq_some_iff.mp stored).1
    refine ⟨by omega, ?_⟩
    simp only [copies, listed, Option.map_some, Option.getD_some]
    exact Copy.isOf_create made id
  · intro number x inside
    exact absurd inside nowhere
  · intro a b x y _ inside
    exact absurd inside nowhere
  · intro number id node stored
    simp [copies] at stored
  · intro number list store listed
    simp only [copies, listed, Option.map_some, Option.getD_some]

namespace Sharing

theorem find?_eq (sharing : session.Sharing nodes copies)
    (listed : session.lists[number]? = some (list, store)) :
    session.find? number = some (list, 0, nodes) := by
  obtain ⟨rfl, _⟩ := sharing.isOf listed
  exact find?_eq_some_iff.mpr ⟨listed, by rw [sharing.stores]; rfl⟩

theorem spliceFor (sharing : session.Sharing nodes copies)
    (listed : session.lists[number]? = some (list, store)) (extended : session.shelf.Extends before)
    (entry : Bytes) :
    Both (List.Forall₂ (copies number).Placed) (list.spliceFor nodes before entry)
      ((copies number).list.spliceFor (copies number).nodes before entry) := by
  refine ((sharing.isOf listed).2.reflects ?_ (.refl before)).spliceFor entry
  intro id node stored
  obtain ⟨read, found⟩ := sharing.published stored
  exact ⟨read, extended.keeps found⟩

theorem leavesLists (sharing : session.Sharing nodes copies)
    (extended : session.shelf.Extends next.shelf) (leaves : session.LeavesLists next) :
    next.Sharing nodes copies where
  stores := leaves.stores.trans sharing.stores
  packed := sharing.packed
  reserved := sharing.reserved
  isOf listed := sharing.isOf (leaves.lists ▸ listed)
  inside := sharing.inside
  apart := sharing.apart
  published stored := by
    obtain ⟨entry, found⟩ := sharing.published stored
    exact ⟨entry, extended.keeps found⟩

/-- While a handle is linked into a list and into its copy, all other copies stay as they are. -/
theorem entered (sharing : session.Sharing nodes copies)
    (extended : session.shelf.Extends next.shelf) (read : next.shelf.arena.get handle = .ok entry)
    (stores : next.stores = [grown]) (lists : next.lists = session.lists.set number (longer, 0))
    {others : Splice} {longerOwn : SkipList} {grownOwn : NodeStore} {newOwn new : NodeId}
    (placed : List.Forall₂ (copies number).Placed splice others)
    (entersOwn : Entering (copies number).list (copies number).nodes others handle levels newOwn
      longerOwn grownOwn)
    (enters : Entering list nodes splice handle levels new longer grown)
    (isOf : Copy.IsOf ⟨longerOwn, grownOwn, Function.update (copies number).onNode newOwn new⟩ longer
      grown) :
    next.Sharing grown (Function.update copies number
      ⟨longerOwn, grownOwn, Function.update (copies number).onNode newOwn new⟩) := by
  have behind : ∀ {other x}, other ≠ number → Within (copies other).nodes (some x) →
      ∀ level, splice.getD level none ≠ some ((copies other).onNode x) := by
    intro other x different inside level at?
    obtain ⟨same, within⟩ := SkipList.Renamed.placed_getD placed level
    rw [at?] at same
    obtain ⟨y, own, name⟩ := Option.map_eq_some_iff.mp same.symm
    rw [own] at within
    exact sharing.apart different inside within name.symm
  have fresh : ∀ {other x}, Within (copies other).nodes (some x) → (copies other).onNode x ≠ new :=
    fun inside same => enters.ne_new (sharing.inside inside) (congrArg some same)
  -- A node of the longer copy is the new one, or it has the name that it had.
  have apart : ∀ {other x y}, other ≠ number → Within grownOwn (some x) →
      Within (copies other).nodes (some y) →
      Function.update (copies number).onNode newOwn new x ≠ (copies other).onNode y := by
    intro other x y different insideX insideY
    rcases entersOwn.within_iff.mp insideX with isNew | old
    · obtain rfl := Option.some.inj isNew
      rw [Function.update_self]
      exact (fresh insideY).symm
    · rw [Function.update_of_ne fun same => entersOwn.ne_new old (congrArg some same)]
      exact sharing.apart different.symm old insideY
  refine ⟨stores, enters.packed sharing.packed, ?_, ?_, ?_, ?_, ?_⟩
  · rw [enters.reserved, enters.size, sharing.reserved]
  · intro other listed at? inNext
    rcases getElem?_set_cases (lists ▸ inNext) with ⟨rfl, same⟩ | ⟨different, old⟩
    · obtain ⟨rfl, rfl⟩ := Prod.mk.inj same
      rw [Function.update_self]
      exact ⟨rfl, isOf⟩
    · rw [Function.update_of_ne different]
      obtain ⟨zero, isOfOther⟩ := sharing.isOf old
      exact ⟨zero, isOfOther.frame enters (behind different)⟩
  · intro other x inside
    by_cases same : other = number
    · subst same
      rw [Function.update_self] at inside ⊢
      exact isOf.renamed.within inside
    · rw [Function.update_of_ne same] at inside ⊢
      exact enters.within_iff.mpr (.inr (sharing.inside inside))
  · intro a b x y different insideX insideY
    exact pairwise_update
      (R := fun _ _ (one another : Copy) => ∀ x y, Within one.nodes (some x) →
        Within another.nodes (some y) → one.onNode x ≠ another.onNode y)
      (fun apart x y insideX insideY => (apart y x insideY insideX).symm)
      (fun other different x y => apart different)
      (fun different x y => sharing.apart different) different x y insideX insideY
  · intro other id node stored
    by_cases same : other = number
    · subst same
      rw [Function.update_self] at stored
      rcases entersOwn.shape_cases stored with ⟨_, same⟩ | ⟨_, old, there, same⟩
      · exact ⟨entry, (Prod.mk.inj same).1 ▸ read⟩
      · obtain ⟨listed, found⟩ := sharing.published there
        exact ⟨listed, (Prod.mk.inj same).1 ▸ extended.keeps found⟩
    · rw [Function.update_of_ne same] at stored
      obtain ⟨listed, found⟩ := sharing.published stored
      exact ⟨listed, extended.keeps found⟩

/-- A handle that is linked into a list can be linked into its copy, with a tower of the same
height. -/
theorem grows (sharing : session.Sharing nodes copies)
    (listed : session.lists[number]? = some (list, store))
    (searched : session.shelf.Extends before) (extended : session.shelf.Extends next.shelf)
    (read : next.shelf.arena.get handle = .ok entry)
    (place : list.spliceFor nodes before entry = .ok splice) {heights : Heights}
    (done : list.insertAt nodes heights splice handle = .ok (grown, longer, levels))
    (stores : next.stores = [grown]) (lists : next.lists = session.lists.set number (longer, 0))
    (drawn : Heights) (same : drawn (copies number).nodes.size = heights nodes.size) :
    ∃ others copy,
      (copies number).list.spliceFor (copies number).nodes before entry = .ok others ∧
      (copies number).list.insertAt (copies number).nodes drawn others handle
        = .ok (copy.nodes, copy.list, levels) ∧
      next.Sharing grown (Function.update copies number copy) ∧
      copy.nodes.size = (copies number).nodes.size + 1 ∧
      ∀ {place start}, (copies number).Placed place start → copy.Placed place start := by
  rcases (sharing.spliceFor listed searched entry).cases with
    ⟨found, others, placeHere, placeOwn, placed⟩ | ⟨failure, refused, _⟩
  · obtain rfl : splice = found := Except.ok.inj (place.symm.trans placeHere)
    obtain ⟨grownOwn, longerOwn, newOwn, new, doneOwn, entersOwn, enters, isOf⟩ :=
      (sharing.isOf listed).2.insertAt placeOwn placed done same
    refine ⟨others, ⟨longerOwn, grownOwn, Function.update (copies number).onNode newOwn new⟩,
      placeOwn, doneOwn, sharing.entered extended read stores lists placed entersOwn enters isOf,
      entersOwn.size, ?_⟩
    rintro place start ⟨rfl, inside⟩
    exact ⟨(SkipList.Renamed.placed_map_update inside entersOwn.free).symm,
      entersOwn.within_iff.mpr (.inr inside)⟩
  · cases refused.symm.trans place

/-- Lists go on sharing a store, and the copies of those into which nothing is linked stay as they
are. -/
theorem execute (sharing : session.Sharing nodes copies) (command : SkipListCommand) :
    ∃ nodes copiesNow, (session.execute command).1.Sharing nodes copiesNow ∧
      ∀ number, session.linked number command = [] → copiesNow number = copies number := by
  obtain ⟨extended, ⟨leaves, _⟩ | ⟨number, handle, takesIn, linked⟩⟩ := session.carries command
  · exact ⟨nodes, copies, sharing.leavesLists extended.shelf leaves, fun _ _ => rfl⟩
  · obtain ⟨found, later, earlier, read, place, done, stores, lists⟩ := takesIn
    rename_i list longer store levels own grown before entry splice
    obtain ⟨listed, stored⟩ := find?_eq_some_iff.mp found
    obtain ⟨rfl, _⟩ := sharing.isOf listed
    rw [sharing.stores] at stores stored
    obtain rfl : nodes = own := Option.some.inj stored
    obtain ⟨_, copy, _, _, sharingNow, _⟩ := sharing.grows listed later extended.shelf read place done
      stores lists (fun _ => session.heights nodes.size) rfl
    refine ⟨grown, _, sharingNow, fun other apart => Function.update_of_ne ?_ ..⟩
    rintro rfl
    rw [linked, if_pos rfl] at apart
    cases apart

theorem housed (sharing : session.Sharing nodes copies) : session.Housed session.lists.length where
  length := rfl
  stores listed := by
    obtain ⟨rfl, _⟩ := sharing.isOf listed
    simp [sharing.stores]

theorem sharedNodes_eq (sharing : session.Sharing nodes copies) (shared : session.shared = true) :
    session.sharedNodes = nodes.size := by
  simp [sharedNodes, shared, sharing.stores]

/-- A step adds a node for each handle that it links in. -/
theorem sharedNodes_execute (sharing : session.Sharing nodes copies) (shared : session.shared = true)
    (command : SkipListCommand) :
    (session.execute command).1.sharedNodes = session.sharedNodes
      + ∑ number ∈ Finset.range session.lists.length, (session.linked number command).length := by
  obtain ⟨extended, ⟨leaves, none⟩ | ⟨number, handle, takesIn, linked⟩⟩ := session.carries command
  · simp [sharedNodes, extended.shared, leaves.stores, none]
  · obtain ⟨found, _, _, _, _, done, stores, lists⟩ := takesIn
    obtain ⟨listed, stored⟩ := find?_eq_some_iff.mp found
    obtain ⟨rfl, _⟩ := sharing.isOf listed
    obtain ⟨_, new, enters⟩ := SkipList.insertAt_enters done
    have inside : number < session.lists.length := (List.getElem?_eq_some_iff.mp listed).1
    have once : ∑ other ∈ Finset.range session.lists.length, (session.linked other command).length
        = 1 := by
      simp [linked, apply_ite List.length, inside]
    rw [sharing.stores] at stores stored
    obtain rfl := Option.some.inj stored
    simp [sharedNodes, extended.shared, shared, stores, sharing.stores, once, enters.size]

theorem sharedNodes_run (sharing : session.Sharing nodes copies) (shared : session.shared = true)
    (commands : List SkipListCommand) :
    (session.run commands).sharedNodes = session.sharedNodes
      + ∑ number ∈ Finset.range session.lists.length, (session.links number commands).length := by
  induction commands generalizing session nodes copies with
  | nil => simp [run, links]
  | cons command rest ih =>
    obtain ⟨nodesNow, copiesNow, sharingNow, _⟩ := sharing.execute command
    have onward := ih sharingNow ((session.carries command).extended.shared.trans shared)
    rw [(sharing.housed.execute command).length] at onward
    simp only [links, List.length_append, Finset.sum_add_distrib, ← Nat.add_assoc]
    rw [← sharing.sharedNodes_execute shared command]
    exact onward

end Sharing

end SkipListSession

end WriteBuffer
