import Mathlib
import WriteBuffer.Chain
import WriteBuffer.Cursor.Run
import WriteBuffer.Merge
import WriteBuffer.Proofs.Renumbering.Stores
import WriteBuffer.Proofs.SkipList.Renaming

/-!
Lists of handles under other numbers. Nodes keep their places and links and hold the other numbers of
their handles (`Shelved`), so every search ends where it did, along towers (`Towers.spliceFor`,
`Towers.moves_eq`) as along chains (`Chains.gapIn`, `Chains.moves_eq`).
-/
namespace WriteBuffer

/-- A store has the nodes of another one, which hold handles of published entries, under other
numbers. -/
structure Shelved {α : Type} (renumbering : Renumbering) (handle : α → Handle) (renumber : α → α)
    (a : ChunkStore α) (s : Shelf) (b : ChunkStore α) (t : Shelf) : Prop where
  nodes : a.Mapped renumber b
  shelf : s.Renumbered renumbering t
  has : ∀ {id node}, a.get? id = some node → s.arena.Has (handle node)

namespace Shelved

variable {α : Type} {renumbering : Renumbering} {handle : α → Handle} {renumber : α → α}
  {a b : ChunkStore α} {s t : Shelf}

theorem onShelf (shelved : Shelved renumbering handle renumber a s b t) {s' t' : Shelf}
    (shelf : s'.Renumbered renumbering t') (keeps : s.arena.Keeps s'.arena) :
    Shelved renumbering handle renumber a s' b t' :=
  ⟨shelved.nodes, shelf, fun stored => (shelved.has stored).imp fun _ => keeps⟩

theorem fixed (shelved : Shelved renumbering handle renumber a s b t) {other : Renumbering}
    {change : α → α} {t' : Shelf} (shelf : s.Renumbered other t')
    (keeps : ∀ node, s.arena.Has (handle node) → change node = node) :
    Shelved other handle change a s a t' := by
  refine ⟨⟨rfl, rfl, fun index => ?_⟩, shelf, shelved.has⟩
  cases stored : a.get? index with
  | none => rfl
  | some node => exact congrArg some (keeps node (shelved.has stored)).symm

theorem empty (shelf : s.Renumbered renumbering t) :
    Shelved renumbering handle renumber .empty s .empty t := by
  have nothing : ∀ index, (ChunkStore.empty : ChunkStore α).get? index = none :=
    ChunkStore.get?_empty
  refine ⟨⟨rfl, rfl, fun index => ?_⟩, shelf, fun stored => ?_⟩
  · rw [nothing]
    rfl
  · rw [nothing] at stored
    cases stored

theorem push (shelved : Shelved renumbering handle renumber a s b t) {node : α}
    (has : s.arena.Has (handle node)) : (b.push (renumber node)).2 = (a.push node).2 ∧
      ((a.push node).2.toOption.isSome →
        Shelved renumbering handle renumber (a.push node).1 s (b.push (renumber node)).1 t) := by
  obtain ⟨answer, nodes⟩ := shelved.nodes.push node
  refine ⟨answer, fun done => ⟨nodes, shelved.shelf, fun {id other} stored => ?_⟩⟩
  cases pushed : (a.push node).2 with
  | error failure => simp [pushed, Except.toOption] at done
  | ok new =>
    have slots := (ChunkStore.push_ok (Prod.ext rfl pushed : a.push node = (_, .ok new))).2.2 id
    rw [stored] at slots
    split at slots
    · obtain rfl := Option.some.inj slots
      exact has
    · exact shelved.has slots.symm

theorem update (shelved : Shelved renumbering handle renumber a s b t) (id : NodeId)
    {change : α → α} (commutes : ∀ node, change (renumber node) = renumber (change node))
    (stays : ∀ node, handle (change node) = handle node) :
    Shelved renumbering handle renumber (a.update id change) s (b.update id change) t := by
  refine ⟨shelved.nodes.update id commutes, shelved.shelf, fun {other node} stored => ?_⟩
  rw [ChunkStore.get?_update] at stored
  split at stored
  · obtain ⟨old, before, rfl⟩ := Option.map_eq_some_iff.mp stored
    exact stays old ▸ shelved.has before
  · exact shelved.has stored

end Shelved

/-! ### Towers -/

/-- A node under the other number of its handle. -/
def TowerNode.renumber (renumbering : Renumbering) (node : TowerNode) : TowerNode :=
  { node with handle := renumbering.number node.handle }

/-- Nodes of skip lists under other numbers. -/
abbrev Towers (renumbering : Renumbering) : NodeStore → Shelf → NodeStore → Shelf → Prop :=
  Shelved renumbering TowerNode.handle (TowerNode.renumber renumbering)

namespace Towers

variable {renumbering : Renumbering} {a b : NodeStore} {s t : Shelf}
  {below test : Handle → Except Failure Bool}

section Searches

variable (towers : Towers renumbering a s b t)
include towers

theorem node (id : NodeId) :
    SkipList.node b id = (SkipList.node a id).map (TowerNode.renumber renumbering) := by
  simp only [SkipList.node, towers.nodes.slots]
  cases a.get? id <;> rfl

theorem link (list : SkipList) (place : Option NodeId) (level : Nat) :
    list.link b place level = list.link a place level := by
  have links : list.links b place = list.links a place := by
    cases place with
    | none => rfl
    | some id =>
      simp only [SkipList.links, towers.node]
      cases SkipList.node a id <;> rfl
  simp only [SkipList.link, links]

/-- Tests that answer the same lead along a level alike. -/
theorem advance (list : SkipList) (tests : SkipList.Tests a renumbering.number below test)
    (level fuel : Nat) (place : Option NodeId) :
    list.advance b below level fuel place = list.advance a test level fuel place := by
  induction fuel generalizing place with
  | zero => rfl
  | succ fuel ih =>
    simp only [SkipList.advance, towers.link, towers.node]
    refine bind_congr fun target => ?_
    cases target with
    | none => rfl
    | some id =>
      simp only [SkipList.node]
      cases stored : a.get? id with
      | none => rfl
      | some node =>
        simp only [Except.map, TowerNode.renumber, bind, Except.bind, tests stored]
        cases test node.handle with
        | error failure => rfl
        | ok passed =>
          simp only
          split
          · exact ih _
          · rfl

theorem splice (list : SkipList) (tests : SkipList.Tests a renumbering.number below test) :
    list.splice b below = list.splice a test := by
  have descend : ∀ levels place,
      list.descend b below levels place = list.descend a test levels place := by
    intro levels
    induction levels with
    | zero => intro place; rfl
    | succ level ih =>
      intro place
      simp only [SkipList.descend, towers.nodes.size, towers.advance list tests, ih]
  exact descend list.height none

theorem seekBefore (list : SkipList) (tests : SkipList.Tests a renumbering.number below test) :
    list.seekBefore b below = list.seekBefore a test := by
  simp only [SkipList.seekBefore, towers.splice list tests]

theorem seek (list : SkipList) (tests : SkipList.Tests a renumbering.number below test) :
    list.seek b below = list.seek a test := by
  simp only [SkipList.seek, towers.seekBefore list tests, towers.link]

theorem belowKey (internalKey : Bytes) : SkipList.Tests a renumbering.number
    (t.isBelowKey internalKey) (s.isBelowKey internalKey) :=
  fun stored => towers.shelf.isBelowKey (towers.has stored) internalKey

theorem belowEntry (entry : Bytes) : SkipList.Tests a renumbering.number
    (t.isBelowEntry entry) (s.isBelowEntry entry) :=
  fun stored => towers.shelf.isBelowEntry (towers.has stored) entry

theorem contains (list : SkipList) (internalKey : Bytes) :
    list.contains b t internalKey = list.contains a s internalKey := by
  simp only [SkipList.contains, towers.seek list (towers.belowKey internalKey), towers.node]
  refine bind_congr fun target => ?_
  cases target with
  | none => rfl
  | some id =>
    simp only [SkipList.node]
    cases stored : a.get? id with
    | none => rfl
    | some node =>
      simp only [Except.map, TowerNode.renumber, bind, Except.bind,
        towers.shelf.compareKey (towers.has stored)]

theorem spliceFor (list : SkipList) (entry : Bytes) :
    list.spliceFor b t entry = list.spliceFor a s entry := by
  simp only [SkipList.spliceFor, towers.splice list (towers.belowEntry entry), towers.link,
    towers.node]
  refine bind_congr fun splice => bind_congr fun target => ?_
  cases target with
  | none => rfl
  | some id =>
    simp only [SkipList.node]
    cases stored : a.get? id with
    | none => rfl
    | some node =>
      simp only [Except.map, TowerNode.renumber, bind, Except.bind,
        towers.shelf.compareEntry (towers.has stored)]

theorem entry (id : NodeId) : SkipList.entry b t id = SkipList.entry a s id := by
  simp only [SkipList.entry, towers.node]
  simp only [SkipList.node]
  cases stored : a.get? id with
  | none => rfl
  | some node => exact towers.shelf.arena.get (towers.has stored)

/-- Cursors along a list cannot be told apart. -/
theorem moves_eq (list : SkipList) : list.moves b t = list.moves a s := by
  have entries : SkipList.entry b t = SkipList.entry a s := funext towers.entry
  have before : ∀ entry, list.seekBefore b (t.isBelowEntry entry)
      = list.seekBefore a (s.isBelowEntry entry) := fun entry =>
    towers.seekBefore list (towers.belowEntry entry)
  have sought : ∀ internalKey, list.seek b (t.isBelowKey internalKey)
      = list.seek a (s.isBelowKey internalKey) := fun internalKey =>
    towers.seek list (towers.belowKey internalKey)
  have last : list.last b = list.last a := towers.seekBefore list fun _ => rfl
  simp only [SkipList.moves, entries, before, sought, last, SkipList.first, towers.link,
    towers.nodes.size]

/-- The handles of a list have the other numbers. -/
theorem handles (list : SkipList) :
    list.handles b = (list.handles a).map (List.map renumbering.number) := by
  have along : ∀ fuel place, SkipList.handlesFrom b fuel place
      = (SkipList.handlesFrom a fuel place).map (List.map renumbering.number) := by
    intro fuel
    induction fuel with
    | zero => intro place; cases place <;> rfl
    | succ fuel ih =>
      intro place
      cases place with
      | none => rfl
      | some id =>
        simp only [SkipList.handlesFrom, towers.node]
        cases SkipList.node a id with
        | error failure => rfl
        | ok node =>
          simp only [Except.map, TowerNode.renumber, bind, Except.bind, ih]
          cases SkipList.handlesFrom a fuel (node.next.headD none) <;> rfl
  simp only [SkipList.handles, SkipList.first, towers.link, towers.nodes.size, along]
  cases list.link a none 0 <;> rfl

/-- The handles of a list are those of published entries. -/
theorem has_handles {list : SkipList} {handles : List Handle}
    (found : list.handles a = .ok handles) : ∀ handle ∈ handles, s.arena.Has handle := by
  have along : ∀ fuel place handles, SkipList.handlesFrom a fuel place = .ok handles →
      ∀ handle ∈ handles, s.arena.Has handle := by
    intro fuel
    induction fuel with
    | zero =>
      rintro (_ | id) handles found
      · obtain rfl := Except.ok.inj found
        simp
      · cases found
    | succ fuel ih =>
      rintro (_ | id) handles found
      · obtain rfl := Except.ok.inj found
        simp
      · simp only [SkipList.handlesFrom, bind_eq_ok] at found
        obtain ⟨node, stored, rest, onward, same⟩ := found
        obtain rfl := Except.ok.inj same
        intro handle member
        rcases List.mem_cons.mp member with rfl | later
        · have there : a.get? id = some node := by
            simp only [SkipList.node] at stored
            cases there : a.get? id <;> simp_all
          exact towers.has there
        · exact ih _ _ onward handle later
  simp only [SkipList.handles, bind_eq_ok] at found
  obtain ⟨place, _, found⟩ := found
  exact along _ _ _ found

end Searches

theorem relink (new : NodeId) (level : Nat) (place : Option NodeId) {x y : NodeStore × SkipList}
    (same : y.2 = x.2) (towers : Towers renumbering x.1 s y.1 t) :
    (SkipList.relink new y level place).2 = (SkipList.relink new x level place).2 ∧
      Towers renumbering (SkipList.relink new x level place).1 s
        (SkipList.relink new y level place).1 t := by
  obtain ⟨nodes, list⟩ := x
  obtain ⟨others, _⟩ := y
  obtain rfl := same
  cases place with
  | none => exact ⟨rfl, towers⟩
  | some id => exact ⟨rfl, towers.update id (fun _ => rfl) fun _ => rfl⟩

/-- A handle of a published entry is linked in alike under its other number. -/
theorem insertAt (towers : Towers renumbering a s b t) (list : SkipList) (heights : Heights)
    (splice : Splice) {handle : Handle} (has : s.arena.Has handle) :
    Both (fun x y => y.2 = x.2 ∧ Towers renumbering x.1 s y.1 t)
      (list.insertAt a heights splice handle)
      (list.insertAt b heights splice (renumbering.number handle)) := by
  simp only [SkipList.insertAt, towers.nodes.size, towers.link]
  generalize ({ list with
    height := max list.height (min list.maxHeight (max 1 (heights a.size))) } : SkipList) = grown
  refine (Both.of_eq (R := Eq) fun _ _ => rfl).bind ?_
  rintro next _ _ _ rfl
  obtain ⟨answer, stored⟩ := towers.push (show s.arena.Has (TowerNode.handle ⟨handle, next⟩) from has)
  have raised : TowerNode.renumber renumbering ⟨handle, next⟩ = ⟨renumbering.number handle, next⟩ := rfl
  rw [raised] at answer stored
  generalize a.push ⟨handle, next⟩ = x at answer stored ⊢
  generalize b.push ⟨renumbering.number handle, next⟩ = y at answer stored ⊢
  obtain ⟨nodes, first⟩ := x
  obtain ⟨others, pushed⟩ := y
  simp only at answer stored
  subst answer
  cases pushed with
  | error failure => exact rfl
  | ok id =>
    have linked := List.foldl_rel (f := fun state level =>
        SkipList.relink id state level (splice.getD level none))
      (r := fun x y : NodeStore × SkipList => y.2 = x.2 ∧ Towers renumbering x.1 s y.1 t)
      (l := List.range (min list.maxHeight (max 1 (heights a.size))))
      (a := (nodes, grown)) (b := (others, grown)) ⟨rfl, stored rfl⟩
      fun level _ x y related => relink id level _ related.1 related.2
    exact ⟨Prod.ext linked.1 rfl, linked.2⟩

end Towers

/-! ### Chains -/

/-- A node under the other number of its handle. -/
def ChainNode.renumber (renumbering : Renumbering) (node : ChainNode) : ChainNode :=
  { node with handle := renumbering.number node.handle }

/-- Nodes of chains under other numbers. -/
abbrev Chains (renumbering : Renumbering) : ChainStore → Shelf → ChainStore → Shelf → Prop :=
  Shelved renumbering ChainNode.handle (ChainNode.renumber renumbering)

namespace Chains

variable {renumbering : Renumbering} {a b : ChainStore} {s t : Shelf}
  {rows : List (NodeId × Handle)}

def renumber (renumbering : Renumbering) (rows : List (NodeId × Handle)) : List (NodeId × Handle) :=
  rows.map fun row => (row.1, renumbering.number row.2)

theorem before_renumber (target : NodeId) (rows : List (NodeId × Handle)) :
    ChainStore.before target (renumber renumbering rows) = ChainStore.before target rows := by
  induction rows with
  | nil => rfl
  | cons row rest ih =>
    cases rest with
    | nil => rfl
    | cons next rest =>
      simp only [renumber, List.map_cons, ChainStore.before] at ih ⊢
      rw [ih]

section Searches

variable (chains : Chains renumbering a s b t)
include chains

theorem chain (start : Option NodeId) :
    b.chain start = (a.chain start).map (renumber renumbering) := by
  have along : ∀ fuel place, b.nodesFrom fuel place
      = (a.nodesFrom fuel place).map (renumber renumbering) := by
    intro fuel
    induction fuel with
    | zero => intro place; cases place <;> rfl
    | succ fuel ih =>
      intro place
      cases place with
      | none => rfl
      | some id =>
        simp only [ChainStore.nodesFrom, chains.nodes.slots]
        cases a.get? id with
        | none => rfl
        | some node =>
          simp only [Option.map_some, ChainNode.renumber, bind, Except.bind, ih]
          cases a.nodesFrom fuel node.next <;> rfl
  simp only [ChainStore.chain, chains.nodes.size, along]

/-- The handles of a chain are those of published entries. -/
theorem has_chain {start : Option NodeId} (found : a.chain start = .ok rows) :
    ∀ row ∈ rows, s.arena.Has row.2 := by
  have along : ∀ fuel place rows, a.nodesFrom fuel place = .ok rows →
      ∀ row ∈ rows, s.arena.Has row.2 := by
    intro fuel
    induction fuel with
    | zero =>
      rintro (_ | id) rows found
      · obtain rfl := Except.ok.inj found
        simp
      · cases found
    | succ fuel ih =>
      rintro (_ | id) rows found
      · obtain rfl := Except.ok.inj found
        simp
      · simp only [ChainStore.nodesFrom] at found
        cases stored : a.get? id with
        | none => simp [stored] at found
        | some node =>
          simp only [stored, bind_eq_ok] at found
          obtain ⟨rest, onward, same⟩ := found
          obtain rfl := Except.ok.inj same
          intro row member
          rcases List.mem_cons.mp member with rfl | later
          · exact chains.has stored
          · exact ih _ _ onward row later
  exact along _ _ _ found

theorem gapIn (has : ∀ row ∈ rows, s.arena.Has row.2) (entry : Bytes) (previous : Option NodeId) :
    ChainStore.gapIn (t.compareEntry · entry) previous (renumber renumbering rows)
      = ChainStore.gapIn (s.compareEntry · entry) previous rows := by
  induction rows generalizing previous with
  | nil => rfl
  | cons row rest ih =>
    obtain ⟨id, handle⟩ := row
    have rest := fun previous => ih (fun row member => has row (List.mem_cons_of_mem _ member)) previous
    have compared := chains.shelf.compareEntry (has _ List.mem_cons_self) entry
    simp only [renumber, List.map_cons, ChainStore.gapIn] at rest ⊢
    simp only [compared, rest]

theorem seekIn (has : ∀ row ∈ rows, s.arena.Has row.2) (internalKey : Bytes) :
    Both (fun found other => other = found.map (fun row => (row.1, renumbering.number row.2)) ∧
        ∀ row ∈ found, s.arena.Has row.2)
      (ChainStore.seekIn (s.isBelowKey internalKey) rows)
      (ChainStore.seekIn (t.isBelowKey internalKey) (renumber renumbering rows)) := by
  induction rows with
  | nil => exact ⟨rfl, by simp⟩
  | cons row rest ih =>
    obtain ⟨here, has⟩ := List.forall_mem_cons.mp has
    simp only [renumber, List.map_cons, ChainStore.seekIn, chains.shelf.isBelowKey here]
    refine (Both.of_eq (R := Eq) fun _ _ => rfl).bind ?_
    rintro passed _ _ _ rfl
    cases passed with
    | true => exact ih has
    | false => exact ⟨rfl, by simpa using here⟩

/-- Cursors along a chain cannot be told apart. -/
theorem moves_eq (start : Option NodeId) : b.moves start t = a.moves start s := by
  simp only [ChainStore.moves, chains.nodes.slots, chains.nodes.size, chains.chain, Moves.mk.injEq,
    and_true, true_and]
  refine ⟨?_, ?_, ?_, ?_, ?_⟩
  · funext place
    refine congrArg (atPlace place) (funext fun id => ?_)
    cases stored : a.get? id with
    | none => rfl
    | some node => exact chains.shelf.arena.get (chains.has stored)
  · funext place
    refine congrArg (atPlace place) (funext fun id => ?_)
    cases a.get? id <;> rfl
  · funext place
    refine congrArg (atPlace place) (funext fun id => ?_)
    cases a.chain start with
    | error failure => rfl
    | ok rows =>
      simp only [Except.map, bind, Except.bind, pure, Except.pure, before_renumber]
  · funext internalKey place
    cases found : a.chain start with
    | error failure => rfl
    | ok rows =>
      refine (Both.eq ?_).symm
      refine (chains.seekIn (chains.has_chain found) internalKey).bind ?_
      rintro row _ _ _ ⟨rfl, _⟩
      cases row <;> exact rfl
  · funext place
    cases a.chain start with
    | error failure => rfl
    | ok rows =>
      simp only [Except.map, renumber, bind, Except.bind, pure, Except.pure, List.getLast?_map,
        Option.map_map]
      rfl

end Searches

end Chains

end WriteBuffer
