import Mathlib
import WriteBuffer.Proofs.Cursor.Bisimulation
import WriteBuffer.Proofs.SkipList.Insert
import WriteBuffer.SkipList.Cursor

/-!
Lists that are the same up to the names of their nodes and of the handles in them
(`SkipList.Renamed`). A step along a level commutes with the renaming, and so does every search and
every movement of a cursor, if tests of handles answer the same (`SkipList.Reflects`). Searches are
given as many steps as a store has nodes, so where one of the stores is larger it has to be known that
no chain needs more steps than the smaller one gives (`SkipList.Steady`).
-/
namespace WriteBuffer

namespace SkipList

/-- A place is the head or a node of a store. -/
def Within (nodes : NodeStore) (place : Option NodeId) : Prop :=
  ∀ id ∈ place, (nodes.get? id).isSome

theorem within_none (nodes : NodeStore) : Within nodes none := by simp [Within]

theorem within_some {nodes : NodeStore} {id : NodeId} :
    Within nodes (some id) ↔ ∃ node, nodes.get? id = some node := by
  simp [Within, Option.isSome_iff_exists]

/-- A list is another one under other names of nodes and handles. -/
structure Renamed (onNode : NodeId → NodeId) (onHandle : Handle → Handle) (own : SkipList)
    (mine : NodeStore) (list : SkipList) (nodes : NodeStore) : Prop where
  injective : ∀ {a b}, Within mine (some a) → Within mine (some b) → onNode a = onNode b → a = b
  height : list.height = own.height
  maxHeight : list.maxHeight = own.maxHeight
  shapes : ∀ {id node}, mine.get? id = some node →
    (nodes.get? (onNode id)).map shape = some (onHandle node.handle, node.next.length)
  links : ∀ {place}, Within mine place → ∀ level, list.linkAt nodes level (place.map onNode)
    = (own.linkAt mine level place).map (Option.map onNode)
  closed : ∀ {level place target}, own.linkAt mine level place = some target → Within mine target

theorem link_eq_linkAt {list : SkipList} {nodes : NodeStore} {place : Option NodeId}
    (within : Within nodes place) (level : Nat) :
    list.link nodes place level = match list.linkAt nodes level place with
      | some target => .ok target
      | none => .error .outOfRange := by
  cases place with
  | none => rfl
  | some id =>
    obtain ⟨node, stored⟩ := within_some.mp within
    cases next : node.next[level]? <;>
      simp only [link, links, linkAt, node_eq stored, stored, Except.map, bind, Except.bind,
        Option.bind_some, next]

/-- A place under its other name. -/
def Placed (onNode : NodeId → NodeId) (mine : NodeStore) (place own : Option NodeId) : Prop :=
  place = own.map onNode ∧ Within mine own

/-- A test of handles answers the same under the other names. -/
def Tests (mine : NodeStore) (onHandle : Handle → Handle)
    (below test : Handle → Except Failure Bool) : Prop :=
  ∀ {id node}, mine.get? id = some node → below (onHandle node.handle) = test node.handle

/-- No chain of a list needs more steps than its store has nodes. -/
structure Steady (list : SkipList) (nodes : NodeStore) (size : Nat) : Prop where
  advance : ∀ {place}, Within nodes place → ∀ below level,
    list.advance nodes below level (size + 1) place
      = list.advance nodes below level (nodes.size + 1) place
  handlesFrom : ∀ {first}, list.first nodes = .ok first →
    handlesFrom nodes size first = handlesFrom nodes nodes.size first

namespace Renamed

variable {onNode : NodeId → NodeId} {onHandle : Handle → Handle} {own list : SkipList}
  {mine nodes : NodeStore} {place start : Option NodeId}
  {below test : Handle → Except Failure Bool} {levels fuel : Nat}

theorem within (renamed : Renamed onNode onHandle own mine list nodes) (inside : Within mine place) :
    Within nodes (place.map onNode) := by
  cases place with
  | none => exact within_none nodes
  | some id =>
    obtain ⟨node, stored⟩ := within_some.mp inside
    obtain ⟨found, there, _⟩ := Option.map_eq_some_iff.mp (renamed.shapes stored)
    exact within_some.mpr ⟨found, there⟩

theorem link (renamed : Renamed onNode onHandle own mine list nodes) (level : Nat)
    (placed : Placed onNode mine place start) :
    Both (Placed onNode mine) (list.link nodes place level) (own.link mine start level) := by
  obtain ⟨rfl, inside⟩ := placed
  rw [link_eq_linkAt (renamed.within inside), link_eq_linkAt inside, renamed.links inside]
  cases linked : own.linkAt mine level start with
  | none => exact rfl
  | some target => exact ⟨rfl, renamed.closed linked⟩

/-- A node under its other name holds its handle under the other name, and leads on to the same
node. -/
theorem node (renamed : Renamed onNode onHandle own mine list nodes) {id : NodeId}
    (inside : Within mine (some id)) :
    Both (fun found node => mine.get? id = some node ∧ found.handle = onHandle node.handle ∧
        Placed onNode mine (found.next.headD none) (node.next.headD none))
      (SkipList.node nodes (onNode id)) (SkipList.node mine id) := by
  obtain ⟨node, stored⟩ := within_some.mp inside
  obtain ⟨found, there, same⟩ := Option.map_eq_some_iff.mp (renamed.shapes stored)
  rw [node_eq there, node_eq stored]
  refine ⟨stored, congrArg Prod.fst same, ?_⟩
  have links := renamed.links inside 0
  have closed := @renamed.closed 0 (some id)
  simp only [linkAt, Option.map_some, there, stored, Option.bind_some] at links closed
  simp only [List.headD_eq_head?_getD, List.head?_eq_getElem?, links]
  cases next : node.next[0]? with
  | none => exact ⟨rfl, within_none mine⟩
  | some target => exact ⟨rfl, closed next⟩

theorem advance (renamed : Renamed onNode onHandle own mine list nodes)
    (tests : Tests mine onHandle below test) (level fuel : Nat)
    (placed : Placed onNode mine place start) :
    Both (Placed onNode mine) (list.advance nodes below level fuel place)
      (own.advance mine test level fuel start) := by
  induction fuel generalizing place start with
  | zero => exact rfl
  | succ fuel ih =>
    refine (renamed.link level placed).bind ?_
    rintro _ (_ | id) _ _ ⟨rfl, inside⟩
    · exact placed
    · refine (renamed.node inside).bind ?_
      rintro found node _ _ ⟨stored, handle, _⟩
      rw [handle, tests stored]
      refine (Both.of_eq (R := Eq) fun _ _ => rfl).bind ?_
      rintro passed _ _ _ rfl
      cases passed with
      | true => exact ih ⟨rfl, inside⟩
      | false => exact placed

theorem descend (renamed : Renamed onNode onHandle own mine list nodes)
    (steady : own.Steady mine nodes.size) (tests : Tests mine onHandle below test) (levels : Nat)
    (placed : Placed onNode mine place start) :
    Both (List.Forall₂ (Placed onNode mine)) (list.descend nodes below levels place)
      (own.descend mine test levels start) := by
  induction levels generalizing place start with
  | zero => exact .nil
  | succ level ih =>
    have step := renamed.advance tests level (nodes.size + 1) placed
    rw [steady.advance placed.2] at step
    refine step.bind fun reached further _ _ there => ?_
    refine (ih there).bind fun splice others _ _ lower => ?_
    exact List.rel_append lower (.cons there .nil)

theorem splice (renamed : Renamed onNode onHandle own mine list nodes)
    (steady : own.Steady mine nodes.size) (tests : Tests mine onHandle below test) :
    Both (List.Forall₂ (Placed onNode mine)) (list.splice nodes below) (own.splice mine test) := by
  rw [SkipList.splice, SkipList.splice, renamed.height]
  exact renamed.descend steady tests _ ⟨rfl, within_none mine⟩

theorem placed_headD {places others : Splice}
    (placed : List.Forall₂ (Placed onNode mine) places others) :
    Placed onNode mine (places.headD none) (others.headD none) := by
  cases placed with
  | nil => exact ⟨rfl, within_none mine⟩
  | cons first _ => exact first

theorem seekBefore (renamed : Renamed onNode onHandle own mine list nodes)
    (steady : own.Steady mine nodes.size) (tests : Tests mine onHandle below test) :
    Both (Placed onNode mine) (list.seekBefore nodes below) (own.seekBefore mine test) :=
  (renamed.splice steady tests).bind fun _ _ _ _ placed => placed_headD placed

theorem seek (renamed : Renamed onNode onHandle own mine list nodes)
    (steady : own.Steady mine nodes.size) (tests : Tests mine onHandle below test) :
    Both (Placed onNode mine) (list.seek nodes below) (own.seek mine test) :=
  (renamed.seekBefore steady tests).bind fun _ _ _ _ placed => renamed.link 0 placed

theorem first (renamed : Renamed onNode onHandle own mine list nodes) :
    Both (Placed onNode mine) (list.first nodes) (own.first mine) :=
  renamed.link 0 ⟨rfl, within_none mine⟩

theorem last (renamed : Renamed onNode onHandle own mine list nodes)
    (steady : own.Steady mine nodes.size) :
    Both (Placed onNode mine) (list.last nodes) (own.last mine) :=
  renamed.seekBefore steady fun _ => rfl

theorem isEmpty (renamed : Renamed onNode onHandle own mine list nodes) :
    list.isEmpty = own.isEmpty := by
  have links := renamed.links (within_none mine) 0
  simp only [linkAt, Option.map_none] at links
  simp only [SkipList.isEmpty, List.headD_eq_head?_getD, List.head?_eq_getElem?, links]
  cases own.head[0]? with
  | none => rfl
  | some target => cases target <;> rfl

theorem handlesFrom (renamed : Renamed onNode onHandle own mine list nodes) (fuel : Nat)
    (placed : Placed onNode mine place start) :
    Both (fun handles others => handles = others.map onHandle)
      (SkipList.handlesFrom nodes fuel place) (SkipList.handlesFrom mine fuel start) := by
  obtain ⟨rfl, inside⟩ := placed
  induction fuel generalizing start with
  | zero => cases start <;> exact rfl
  | succ fuel ih =>
    cases start with
    | none => exact rfl
    | some id =>
      refine (renamed.node inside).bind ?_
      rintro found node _ _ ⟨_, handle, next, onward⟩
      rw [next]
      refine (ih onward).bind ?_
      rintro _ others _ _ rfl
      exact congrArg (· :: _) handle

theorem handles (renamed : Renamed onNode onHandle own mine list nodes)
    (steady : own.Steady mine nodes.size) :
    Both (fun handles others => handles = others.map onHandle) (list.handles nodes)
      (own.handles mine) := by
  refine renamed.first.bind fun place start _ found placed => ?_
  rw [← steady.handlesFrom found]
  exact renamed.handlesFrom nodes.size placed

theorem frame (renamed : Renamed onNode onHandle own mine list nodes) {others : NodeStore}
    (same : ∀ {id}, Within mine (some id) → others.get? (onNode id) = nodes.get? (onNode id)) :
    Renamed onNode onHandle own mine list others where
  injective := renamed.injective
  height := renamed.height
  maxHeight := renamed.maxHeight
  shapes stored := by rw [same (within_some.mpr ⟨_, stored⟩), renamed.shapes stored]
  links := by
    intro place inside level
    rw [← renamed.links inside]
    cases place with
    | none => rfl
    | some id => simp only [linkAt, Option.map_some, same inside]
  closed := renamed.closed

end Renamed

/-- A list reflects another one under other names if the entries of their handles are the same. -/
structure Reflects (onNode : NodeId → NodeId) (onHandle : Handle → Handle) (own : SkipList)
    (mine : NodeStore) (old : Shelf) (list : SkipList) (nodes : NodeStore) (shelf : Shelf) :
    Prop where
  renamed : Renamed onNode onHandle own mine list nodes
  steady : own.Steady mine nodes.size
  order : shelf.order = old.order
  entries : ∀ {id node}, mine.get? id = some node →
    shelf.arena.get (onHandle node.handle) = old.arena.get node.handle

namespace Reflects

variable {onNode : NodeId → NodeId} {onHandle : Handle → Handle} {own list : SkipList}
  {mine nodes : NodeStore} {old shelf : Shelf} {place start : Option NodeId}

theorem compareEntry (reflects : Reflects onNode onHandle own mine old list nodes shelf)
    {id : NodeId} {node : TowerNode} (stored : mine.get? id = some node) (entry : Bytes) :
    shelf.compareEntry (onHandle node.handle) entry = old.compareEntry node.handle entry := by
  rw [Shelf.compareEntry, Shelf.compareEntry, reflects.entries stored, reflects.order]

theorem compareKey (reflects : Reflects onNode onHandle own mine old list nodes shelf)
    {id : NodeId} {node : TowerNode} (stored : mine.get? id = some node) (internalKey : Bytes) :
    shelf.compareKey (onHandle node.handle) internalKey = old.compareKey node.handle internalKey := by
  rw [Shelf.compareKey, Shelf.compareKey, reflects.entries stored, reflects.order]

theorem belowEntry (reflects : Reflects onNode onHandle own mine old list nodes shelf)
    (entry : Bytes) :
    Tests mine onHandle (shelf.isBelowEntry entry) (old.isBelowEntry entry) := by
  intro id node stored
  rw [Shelf.isBelowEntry, Shelf.isBelowEntry, reflects.compareEntry stored]

theorem belowKey (reflects : Reflects onNode onHandle own mine old list nodes shelf)
    (internalKey : Bytes) :
    Tests mine onHandle (shelf.isBelowKey internalKey) (old.isBelowKey internalKey) := by
  intro id node stored
  rw [Shelf.isBelowKey, Shelf.isBelowKey, reflects.compareKey stored]

theorem contains (reflects : Reflects onNode onHandle own mine old list nodes shelf)
    (internalKey : Bytes) :
    list.contains nodes shelf internalKey = own.contains mine old internalKey := by
  refine Both.eq ?_
  refine (reflects.renamed.seek reflects.steady (reflects.belowKey internalKey)).bind ?_
  rintro _ (_ | id) _ _ ⟨rfl, inside⟩
  · exact rfl
  · refine (reflects.renamed.node inside).bind ?_
    rintro found node _ _ ⟨stored, handle, _⟩
    rw [handle, reflects.compareKey stored]
    exact Both.of_eq fun _ _ => rfl

theorem spliceFor (reflects : Reflects onNode onHandle own mine old list nodes shelf)
    (entry : Bytes) :
    Both (List.Forall₂ (Placed onNode mine)) (list.spliceFor nodes shelf entry)
      (own.spliceFor mine old entry) := by
  refine (reflects.renamed.splice reflects.steady (reflects.belowEntry entry)).bind ?_
  intro splice others _ _ placed
  refine (reflects.renamed.link 0 (Renamed.placed_headD placed)).bind ?_
  rintro _ (_ | id) _ _ ⟨rfl, inside⟩
  · exact placed
  · refine (reflects.renamed.node inside).bind ?_
    rintro found node _ _ ⟨stored, handle, _⟩
    rw [handle, reflects.compareEntry stored]
    refine (Both.of_eq (R := Eq) fun _ _ => rfl).bind ?_
    rintro ordering _ _ _ rfl
    cases ordering with
    | eq => exact rfl
    | lt | gt => exact placed

theorem entry (reflects : Reflects onNode onHandle own mine old list nodes shelf) {id : NodeId}
    (inside : Within mine (some id)) :
    SkipList.entry nodes shelf (onNode id) = SkipList.entry mine old id := by
  refine Both.eq ((reflects.renamed.node inside).bind ?_)
  rintro found node _ _ ⟨stored, handle, _⟩
  rw [handle, reflects.entries stored]
  exact Both.of_eq fun _ _ => rfl

/-- Cursors over lists that are the same up to names cannot be told apart. -/
theorem bisimilar (reflects : Reflects onNode onHandle own mine old list nodes shelf) :
    (list.moves nodes shelf).Bisimilar (own.moves mine old) (Placed onNode mine) where
  valid := by
    rintro _ start ⟨rfl, _⟩
    cases start <;> rfl
  entry := by
    rintro _ (_ | id) ⟨rfl, inside⟩
    · rfl
    · exact reflects.entry inside
  move := by
    rintro _ start ⟨rfl, inside⟩ motion
    cases motion with
    | next =>
      cases start with
      | none => exact rfl
      | some id => exact reflects.renamed.link 0 ⟨rfl, inside⟩
    | prev =>
      cases start with
      | none => exact rfl
      | some id =>
        simp only [Moves.move, moves, Option.map_some, atPlace, reflects.entry inside]
        refine (Both.of_eq (R := Eq) fun _ _ => rfl).bind ?_
        rintro entry _ _ _ rfl
        exact reflects.renamed.seekBefore reflects.steady (reflects.belowEntry entry)
    | seek internalKey =>
      exact reflects.renamed.seek reflects.steady (reflects.belowKey internalKey)
    | first => exact reflects.renamed.first
    | last => exact reflects.renamed.last reflects.steady

end Reflects

namespace Entering

variable {list longer : SkipList} {nodes grown : NodeStore} {splice : Splice} {handle : Handle}
  {levels level : Nat} {new : NodeId} {place : Option NodeId}

theorem within_iff (enters : Entering list nodes splice handle levels new longer grown) :
    Within grown place ↔ place = some new ∨ Within nodes place := by
  cases place with
  | none => simp [within_none]
  | some id =>
    by_cases same : id = new
    · subst same
      obtain ⟨node, stored, _⟩ := Option.map_eq_some_iff.mp enters.made
      simp [Within, stored]
    · have shapes := congrArg Option.isSome (enters.shapes id same)
      simp only [Option.isSome_map] at shapes
      simp [Within, shapes, same]

theorem ne_new (enters : Entering list nodes splice handle levels new longer grown)
    (inside : Within nodes place) : place ≠ some new := by
  rintro rfl
  have stored := inside new rfl
  rw [enters.free] at stored
  cases stored

/-- A node of the store into which a node was put is the new one, or has the shape that it had. -/
theorem shape_cases (enters : Entering list nodes splice handle levels new longer grown)
    {id : NodeId} {node : TowerNode} (stored : grown.get? id = some node) :
    (id = new ∧ shape node = (handle, levels)) ∨
      (id ≠ new ∧ ∃ old, nodes.get? id = some old ∧ shape old = shape node) := by
  by_cases same : id = new
  · have made := enters.made
    rw [← same, stored, Option.map_some, Option.some.injEq] at made
    exact .inl ⟨same, made⟩
  · have shapes := enters.shapes id same
    rw [stored, Option.map_some, eq_comm] at shapes
    exact .inr ⟨same, Option.map_eq_some_iff.mp shapes⟩

theorem linkAt_above (enters : Entering list nodes splice handle levels new longer grown)
    (above : levels ≤ level) : longer.linkAt grown level (some new) = none := by
  obtain ⟨node, stored, same⟩ := Option.map_eq_some_iff.mp enters.made
  have height : node.next.length = levels := congrArg Prod.snd same
  simp only [SkipList.linkAt, stored, Option.bind_some]
  exact List.getElem?_eq_none (height.trans_le above)

end Entering

namespace Renamed

variable {onNode : NodeId → NodeId} {onHandle : Handle → Handle}
  {own list longer longerOwn : SkipList} {mine nodes grown grownOwn : NodeStore}
  {splice others : Splice} {handle : Handle} {levels : Nat} {new newOwn : NodeId}

theorem placed_getD (placed : List.Forall₂ (Placed onNode mine) splice others) (level : Nat) :
    Placed onNode mine (splice.getD level none) (others.getD level none) := by
  induction placed generalizing level with
  | nil => exact ⟨rfl, within_none mine⟩
  | cons first _ ih =>
    cases level with
    | zero => exact first
    | succ level => exact ih level

theorem map_injective (renamed : Renamed onNode onHandle own mine list nodes)
    {a b : Option NodeId} (insideA : Within mine a) (insideB : Within mine b)
    (same : a.map onNode = b.map onNode) : a = b := by
  cases a with
  | none =>
    cases b with
    | none => rfl
    | some b => cases same
  | some a =>
    cases b with
    | none => cases same
    | some b => rw [renamed.injective insideA insideB (Option.some.inj same)]

theorem placed_map_update {place : Option NodeId} (inside : Within mine place)
    (free : mine.get? newOwn = none) :
    place.map (Function.update onNode newOwn new) = place.map onNode := by
  cases place with
  | none => rfl
  | some id =>
    have different : id ≠ newOwn := by
      rintro rfl
      have stored := inside id rfl
      rw [free] at stored
      cases stored
    simp [different]

/-- Links of the longer copy lead to nodes of its store. -/
theorem closed_entered (renamed : Renamed onNode onHandle own mine list nodes)
    (entersOwn : Entering own mine others handle levels newOwn longerOwn grownOwn) {level : Nat}
    {place target : Option NodeId} (linked : longerOwn.linkAt grownOwn level place = some target) :
    Within grownOwn target := by
  by_cases isNew : place = some newOwn
  · subst isNew
    by_cases reached : level < levels
    · obtain ⟨onward, linkOwn, onwardOwn⟩ := entersOwn.onward level reached
      obtain rfl := Option.some.inj (onwardOwn.symm.trans linked)
      exact entersOwn.within_iff.mpr (.inr (renamed.closed linkOwn))
    · rw [entersOwn.linkAt_above (Nat.le_of_not_lt reached)] at linked
      cases linked
  · rw [entersOwn.linkAt level place isNew] at linked
    split at linked
    · exact entersOwn.within_iff.mpr (.inl (Option.some.inj linked).symm)
    · exact entersOwn.within_iff.mpr (.inr (renamed.closed linked))

section Enters

variable (renamed : Renamed onNode onHandle own mine list nodes)
  (entersOwn : Entering own mine others handle levels newOwn longerOwn grownOwn)
  (enters : Entering list nodes splice (onHandle handle) levels new longer grown)
include renamed entersOwn enters

/-- The new node gets a name that no other node has. -/
theorem injective_entered {a b : NodeId} (insideA : Within grownOwn (some a))
    (insideB : Within grownOwn (some b))
    (same : Function.update onNode newOwn new a = Function.update onNode newOwn new b) : a = b := by
  have named : ∀ {id}, Within mine (some id) →
      Function.update onNode newOwn new id = onNode id ∧ onNode id ≠ new := fun inside =>
    ⟨Function.update_of_ne (fun isNew => entersOwn.ne_new inside (congrArg some isNew)) _ _,
      fun isNew => enters.ne_new (renamed.within inside) (congrArg some isNew)⟩
  rcases entersOwn.within_iff.mp insideA with isNew | oldA <;>
    rcases entersOwn.within_iff.mp insideB with isNew' | oldB
  · exact Option.some.inj (isNew.trans isNew'.symm)
  · rw [Option.some.inj isNew, Function.update_self, (named oldB).1] at same
    exact absurd same.symm (named oldB).2
  · rw [Option.some.inj isNew', Function.update_self, (named oldA).1] at same
    exact absurd same (named oldA).2
  · rw [(named oldA).1, (named oldB).1] at same
    exact renamed.injective oldA oldB same

theorem shapes_entered {id : NodeId} {node : TowerNode} (stored : grownOwn.get? id = some node) :
    (grown.get? (Function.update onNode newOwn new id)).map shape
      = some (onHandle node.handle, node.next.length) := by
  rcases entersOwn.shape_cases stored with ⟨rfl, same⟩ | ⟨isOld, old, there, same⟩
  · obtain ⟨sameHandle, sameHeight⟩ := Prod.mk.inj same
    rw [Function.update_self, enters.made, sameHandle, sameHeight]
  · obtain ⟨sameHandle, sameHeight⟩ := Prod.mk.inj same
    have different : onNode id ≠ new := fun isNew =>
      enters.ne_new (renamed.within (within_some.mpr ⟨old, there⟩)) (congrArg some isNew)
    rw [Function.update_of_ne isOld, enters.shapes _ different, renamed.shapes there, sameHandle,
      sameHeight]

/-- Where the new nodes are put in behind the same places, all links of the longer lists are the
same. -/
theorem links_entered (placed : List.Forall₂ (Placed onNode mine) splice others)
    {place : Option NodeId} (inside : Within grownOwn place) (level : Nat) :
    longer.linkAt grown level (place.map (Function.update onNode newOwn new))
      = (longerOwn.linkAt grownOwn level place).map
          (Option.map (Function.update onNode newOwn new)) := by
  have old : ∀ {place}, Within mine place →
      place.map (Function.update onNode newOwn new) = place.map onNode := fun inside =>
    placed_map_update inside entersOwn.free
  obtain ⟨behind, behindInside⟩ := placed_getD placed level
  rcases entersOwn.within_iff.mp inside with rfl | inside
  · rw [Option.map_some, Function.update_self]
    by_cases reached : level < levels
    · obtain ⟨target, link, onward⟩ := enters.onward level reached
      obtain ⟨targetOwn, linkOwn, onwardOwn⟩ := entersOwn.onward level reached
      rw [behind, renamed.links behindInside, linkOwn] at link
      rw [onward, onwardOwn, ← link, Option.map_some, Option.map_some, old (renamed.closed linkOwn)]
    · rw [enters.linkAt_above (Nat.le_of_not_lt reached),
        entersOwn.linkAt_above (Nat.le_of_not_lt reached), Option.map_none]
  · rw [old inside, enters.linkAt level _ (enters.ne_new (renamed.within inside)),
      entersOwn.linkAt level place (entersOwn.ne_new inside), behind]
    by_cases here : level < levels ∧ place = others.getD level none
    · rw [if_pos here, if_pos ⟨here.1, congrArg _ here.2⟩]
      simp
    · rw [if_neg here, if_neg fun both => here
        ⟨both.1, renamed.map_injective inside behindInside both.2⟩, renamed.links inside]
      cases linked : own.linkAt mine level place with
      | none => rfl
      | some target => rw [Option.map_some, Option.map_some, old (renamed.closed linked)]

end Enters

/-- Where a handle is linked in behind the same places, with towers of the same height, the longer
lists are the same up to the names of their nodes. -/
theorem enters (renamed : Renamed onNode onHandle own mine list nodes)
    (placed : List.Forall₂ (Placed onNode mine) splice others)
    (entersOwn : Entering own mine others handle levels newOwn longerOwn grownOwn)
    (enters : Entering list nodes splice (onHandle handle) levels new longer grown) :
    Renamed (Function.update onNode newOwn new) onHandle longerOwn grownOwn longer grown where
  injective insideA insideB same := renamed.injective_entered entersOwn enters insideA insideB same
  height := by rw [enters.height, entersOwn.height, renamed.height]
  maxHeight := by rw [enters.maxHeight, entersOwn.maxHeight, renamed.maxHeight]
  shapes stored := renamed.shapes_entered entersOwn enters stored
  links inside level := renamed.links_entered entersOwn enters placed inside level
  closed linked := renamed.closed_entered entersOwn linked

end Renamed

end SkipList

end WriteBuffer
