import Mathlib
import WriteBuffer.Proofs.Room
import WriteBuffer.Proofs.SkipList.Search

/-!
Inserts into skip lists. Relinking one level at a time behind a splice (`SkipList.linkAt_foldl`)
takes a node in on every level of its tower, whatever the list (`SkipList.insertAt_enters`). In a
list with rows the node gets a row of its own (`SkipList.LinkedAs.lanes_grown`), no node outside the
list is touched (`SkipList.LinkedAs.insertAt_ok`), and the splice for an entry is found in front of
all entries that are not below it (`SkipList.LinkedAs.spliceFor_cases`).
-/
namespace WriteBuffer

namespace SkipList

/-- What no relinking changes of a node: its handle and the height of its tower. -/
def shape (node : TowerNode) : Handle × Nat := (node.handle, node.next.length)

/-- Relinking changes one link. -/
theorem linkAt_relink (target : NodeId) (state : NodeStore × SkipList) (changed level : Nat)
    (behind place : Option NodeId) :
    (relink target state changed behind).2.linkAt (relink target state changed behind).1 level place
      = if level = changed ∧ place = behind
        then (state.2.linkAt state.1 level place).map fun _ => some target
        else state.2.linkAt state.1 level place := by
  obtain ⟨nodes, list⟩ := state
  cases behind with
  | none =>
    cases place with
    | none =>
      simp only [relink, linkAt, List.getElem?_set]
      by_cases same : changed = level
      · subst same
        by_cases within : changed < list.head.length
        · simp [within]
        · simp [within]
      · simp [same, Ne.symm same]
    | some id => simp [relink, linkAt]
  | some before =>
    cases place with
    | none => simp [relink, linkAt]
    | some id =>
      simp only [relink, linkAt, ChunkStore.get?_update, Option.some.injEq]
      by_cases same : id = before
      · subst same
        cases nodes.get? id with
        | none => simp
        | some node =>
          simp only [if_true, Option.map_some, Option.bind_some, List.getElem?_set]
          by_cases level_eq : changed = level
          · subst level_eq
            by_cases within : changed < node.next.length
            · simp [within]
            · simp [within]
          · simp [level_eq, Ne.symm level_eq]
      · simp [same]

/-- Relinking levels one after the other changes one link on each. -/
theorem linkAt_foldl (target : NodeId) (behind : Nat → Option NodeId) (levels : List Nat)
    (state : NodeStore × SkipList) (level : Nat) (place : Option NodeId) :
    let linked := levels.foldl (fun state level => relink target state level (behind level)) state
    linked.2.linkAt linked.1 level place
      = if level ∈ levels ∧ place = behind level
        then (state.2.linkAt state.1 level place).map fun _ => some target
        else state.2.linkAt state.1 level place := by
  induction levels generalizing state with
  | nil => simp
  | cons first rest ih =>
    simp only [List.foldl_cons]
    rw [ih, linkAt_relink]
    by_cases same : level = first
    · subst same
      by_cases there : place = behind level
      · simp only [there, and_self, if_true, and_true, List.mem_cons, true_or, Option.map_map,
          Function.comp_def, ite_self]
      · simp [there]
    · simp [same]

/-- Relinking levels keeps the store, the levels in use and the shape of every node, and leaves
alone what no link in question belongs to. -/
theorem foldl_relink (target : NodeId) (behind : Nat → Option NodeId) (levels : List Nat)
    (state : NodeStore × SkipList) :
    let linked := levels.foldl (fun state level => relink target state level (behind level)) state
    (state.1.Tallied → linked.1.Tallied) ∧ linked.2.height = state.2.height ∧
      linked.2.maxHeight = state.2.maxHeight ∧
      (∀ id, (linked.1.get? id).map shape = (state.1.get? id).map shape) ∧
      ∀ id, (∀ level ∈ levels, behind level ≠ some id) → linked.1.get? id = state.1.get? id := by
  induction levels generalizing state with
  | nil => exact ⟨id, rfl, rfl, fun _ => rfl, fun _ _ => rfl⟩
  | cons first rest ih =>
    obtain ⟨nodes, list⟩ := state
    obtain ⟨tallied, height, maxHeight, shapes, others⟩ :=
      ih (relink target (nodes, list) first (behind first))
    simp only [List.foldl_cons]
    cases at? : behind first with
    | none =>
      rw [at?] at tallied height maxHeight shapes others
      refine ⟨tallied, height, by rw [maxHeight]; simp [relink, SkipList.maxHeight], shapes, ?_⟩
      intro id apart
      exact others id fun level member => apart level (List.mem_cons_of_mem _ member)
    | some before =>
      rw [at?] at tallied height maxHeight shapes others
      refine ⟨fun old => tallied (old.update ..), height, maxHeight, ?_, ?_⟩
      · intro id
        rw [shapes]
        simp only [relink, ChunkStore.get?_update]
        split
        · next same =>
          subst same
          cases nodes.get? id <;> simp [shape]
        · rfl
      · intro id apart
        rw [others id fun level member => apart level (List.mem_cons_of_mem _ member)]
        have different : id ≠ before := by
          rintro rfl
          exact apart first List.mem_cons_self at?
        simp [relink, different]

theorem towerHeight_eq_of_shape {nodes linked : NodeStore} {id : NodeId}
    (shapes : (linked.get? id).map shape = (nodes.get? id).map shape) :
    towerHeight linked id = towerHeight nodes id := by
  cases old : nodes.get? id with
  | none =>
    rw [old] at shapes
    have gone : linked.get? id = none := by simpa using shapes
    simp [towerHeight, old, gone]
  | some node =>
    rw [old] at shapes
    obtain ⟨new, found, same⟩ := Option.map_eq_some_iff.mp shapes
    have heights := congrArg Prod.snd same
    simp only [shape] at heights
    simp [towerHeight, old, found, heights]

theorem foldl_relink_keeps {P : NodeStore → Prop}
    (keeps : ∀ (nodes : NodeStore) id change, P nodes → P (nodes.update id change))
    (target : NodeId) (behind : Nat → Option NodeId) (levels : List Nat)
    (state : NodeStore × SkipList) (holds : P state.1) :
    P (levels.foldl (fun state level => relink target state level (behind level)) state).1 := by
  induction levels generalizing state with
  | nil => exact holds
  | cons level rest ih =>
    refine ih _ ?_
    obtain ⟨nodes, list⟩ := state
    cases at? : behind level with
    | none => simpa only [relink, at?] using holds
    | some before => simpa only [relink, at?] using keeps nodes _ _ holds

theorem linkAt_of_link {list : SkipList} {nodes : NodeStore} {level : Nat}
    {place target : Option NodeId} (linked : list.link nodes place level = .ok target) :
    list.linkAt nodes level place = some target := by
  obtain ⟨onward, found, linked⟩ := bind_eq_ok.mp linked
  have same : onward[level]? = some target := by
    cases at? : onward[level]? with
    | none => simp [at?] at linked
    | some other =>
      rw [at?] at linked
      exact congrArg some (Except.ok.inj linked)
  cases place with
  | none =>
    obtain rfl := Except.ok.inj found
    exact same
  | some id =>
    simp only [links, node] at found
    simp only [linkAt]
    cases stored : nodes.get? id with
    | none => simp [stored, Except.map] at found
    | some node =>
      rw [stored] at found
      obtain rfl := Except.ok.inj found
      exact same

/-- If a computation succeeds on the first numbers, it yields what it does on each. -/
theorem mapM_range_ok {f : Nat → Except Failure (Option NodeId)} {count : Nat}
    {results : List (Option NodeId)} (done : (List.range count).mapM f = .ok results) :
    results.length = count ∧ ∀ number < count, ∃ result, f number = .ok result ∧
      results[number]? = some result := by
  induction count generalizing results with
  | zero =>
    obtain rfl := Except.ok.inj done
    simp
  | succ count ih =>
    rw [List.range_succ, List.mapM_append] at done
    obtain ⟨before, doneBefore, done⟩ := bind_eq_ok.mp done
    obtain ⟨last, doneLast, done⟩ := bind_eq_ok.mp done
    rw [List.mapM_cons] at doneLast
    obtain ⟨result, found, doneLast⟩ := bind_eq_ok.mp doneLast
    obtain rfl := Except.ok.inj doneLast
    obtain rfl := Except.ok.inj done
    obtain ⟨length, each⟩ := ih doneBefore
    refine ⟨by simp [length], fun number low => ?_⟩
    by_cases there : number = count
    · subst there
      exact ⟨result, found, by simp [← length]⟩
    · obtain ⟨other, foundOther, at?⟩ := each number (by omega)
      exact ⟨other, foundOther, by rw [List.getElem?_append_left (by omega), at?]⟩

/-- How a node gets into a list behind a splice, whatever the list: the node is new, the link behind
the splice on each of its levels leads to it, it takes over what these links led to, and all other
links and all shapes of nodes stay as they were. -/
structure Entering (list : SkipList) (nodes : NodeStore) (splice : Splice) (handle : Handle)
    (levels : Nat) (new : NodeId) (longer : SkipList) (grown : NodeStore) : Prop where
  free : nodes.get? new = none
  index : new.toNat = nodes.reserved
  room : nodes.reserved < UInt32.size - 1
  reserved : grown.reserved = nodes.reserved + 1
  size : grown.size = nodes.size + 1
  tallied : nodes.Tallied → grown.Tallied
  packed : nodes.Packed → grown.Packed
  height : longer.height = max list.height levels
  maxHeight : longer.maxHeight = list.maxHeight
  made : (grown.get? new).map shape = some (handle, levels)
  shapes : ∀ id ≠ new, (grown.get? id).map shape = (nodes.get? id).map shape
  frame : ∀ id ≠ new, (∀ level < levels, splice.getD level none ≠ some id) →
    grown.get? id = nodes.get? id
  onward : ∀ level < levels, ∃ target,
    list.linkAt nodes level (splice.getD level none) = some target ∧
      longer.linkAt grown level (some new) = some target
  linkAt : ∀ level place, place ≠ some new → longer.linkAt grown level place
    = if level < levels ∧ place = splice.getD level none then some (some new)
      else list.linkAt nodes level place

theorem insertAt_enters {list longer : SkipList} {nodes grown : NodeStore} {heights : Heights}
    {splice : Splice} {handle : Handle} {levels : Nat}
    (done : list.insertAt nodes heights splice handle = .ok (grown, longer, levels)) :
    levels = min list.maxHeight (max 1 (heights nodes.size)) ∧
      ∃ new, Entering list nodes splice handle levels new longer grown := by
  obtain ⟨onward, linked, done⟩ := bind_eq_ok.mp done
  obtain ⟨drawn, same⟩ : ∃ drawn, drawn = min list.maxHeight (max 1 (heights nodes.size)) := ⟨_, rfl⟩
  rw [← same] at linked done
  cases pushed : nodes.push ⟨handle, onward⟩ with
  | mk stored answer =>
    cases answer with
    | error failure => simp [pushed, throw, throwThe, MonadExceptOf.throw] at done
    | ok new =>
      simp only [pushed, pure, Except.pure, Except.ok.injEq, Prod.mk.injEq] at done
      obtain ⟨rfl, rfl, rfl⟩ := done
      let behind := fun level => splice.getD level none
      let start : NodeStore × SkipList := (stored, { list with height := max list.height drawn })
      obtain ⟨free, size, slots⟩ := ChunkStore.push_ok pushed
      obtain ⟨reserved, index⟩ := ChunkStore.push_reserved pushed
      obtain ⟨length, each⟩ := mapM_range_ok linked
      obtain ⟨keepsTally, sameHeight, sameMax, shapes, others⟩ :=
        foldl_relink new behind (List.range drawn) start
      have keeps := fun (P : NodeStore → Prop) kept =>
        foldl_relink_keeps (P := P) kept new behind (List.range drawn) start
      have linkAt := linkAt_foldl new behind (List.range drawn) start
      have known : ∀ level < drawn, ∃ target, list.linkAt nodes level (behind level) = some target ∧
          onward[level]? = some target := by
        intro level reached
        obtain ⟨target, link, at?⟩ := each level reached
        exact ⟨target, linkAt_of_link link, at?⟩
      -- The new node is nowhere in the splice, since it had no links.
      have fresh : ∀ level < drawn, behind level ≠ some new := by
        intro level reached at?
        obtain ⟨target, link, _⟩ := known level reached
        simp [at?, SkipList.linkAt, free] at link
      have unlinked : ∀ level place, place ≠ some new →
          start.2.linkAt start.1 level place = list.linkAt nodes level place := by
        intro level place apart
        cases place with
        | none => rfl
        | some id =>
          have different : id ≠ new := fun same => apart (same ▸ rfl)
          simp [start, SkipList.linkAt, slots, different]
      refine ⟨same, new, free, index, ChunkStore.reserved_lt_of_push pushed, ?_, ?_, ?_, ?_,
        sameHeight, sameMax, ?_, ?_, ?_, ?_, ?_⟩
      · exact keeps (·.reserved = nodes.reserved + 1)
          (fun _ _ _ held => (ChunkStore.reserved_update ..).trans held) reserved
      · exact keeps (·.size = nodes.size + 1)
          (fun _ _ _ held => (ChunkStore.size_update ..).trans held) size
      · exact fun tallied => keepsTally (tallied.push pushed)
      · exact fun packed => keeps ChunkStore.Packed (fun _ _ _ held => held.update _ _)
          (packed.push pushed)
      · rw [shapes]
        simp [start, slots, shape, length]
      · intro id different
        rw [shapes]
        simp [start, slots, different]
      · intro id different apart
        rw [others id fun level member => apart level (List.mem_range.mp member)]
        simp [start, slots, different]
      · intro level reached
        obtain ⟨target, link, at?⟩ := known level reached
        refine ⟨target, link, ?_⟩
        rw [linkAt, if_neg fun both => fresh level reached both.2.symm]
        simp [start, SkipList.linkAt, slots, at?]
      · intro level place apart
        rw [linkAt, unlinked level place apart]
        simp only [List.mem_range]
        split
        · next both =>
          obtain ⟨target, link, _⟩ := known level both.1
          rw [both.2, link, Option.map_some]
        · rfl

namespace LinkedAs

variable {list : SkipList} {nodes : NodeStore} {rows front back : List Row}

/-- A list depends on its own nodes only. -/
theorem frame (linked : list.LinkedAs nodes rows) {others : NodeStore}
    (same : ∀ id ∈ ids rows, others.get? id = nodes.get? id) : list.LinkedAs others rows where
  levels := linked.levels
  distinct := linked.distinct
  stored := by
    intro row member
    rw [same row.1 (List.mem_map_of_mem member)]
    exact linked.stored row member
  lanes := by
    intro level low
    have lanes : lane others level (ids rows) = lane nodes level (ids rows) := by
      refine List.filter_congr ?_
      intro id member
      have tower : towerHeight others id = towerHeight nodes id := by
        rw [towerHeight, same id member, towerHeight]
      rw [tower]
    rw [lanes]
    refine (linked.lanes level low).congr ?_
    intro place member
    cases place with
    | none => rfl
    | some id =>
      have inLane : id ∈ lane nodes level (ids rows) := by
        rcases List.mem_cons.mp member with none | inLane
        · cases none
        · exact (List.mem_map_of_injective (Option.some_injective _)).mp inLane
      have inRows := (List.mem_filter.mp inLane).1
      rw [linkAt, same id inRows, linkAt]

/-- On every level, a splice leads to the last node in front. -/
theorem splice_getD (linked : list.LinkedAs nodes (front ++ back)) (level : Nat) :
    ((List.range list.height).map fun level => (lane nodes level (ids front)).getLast?).getD level
      none = (lane nodes level (ids front)).getLast? := by
  by_cases used : level < list.height
  · simp [List.getD_eq_getElem?_getD, used]
  · rw [linked.lane_eq_nil (by simp +contextual [ids]) (Nat.le_of_not_lt used)]
    simp [List.getD_eq_getElem?_getD, used]

end LinkedAs

/-- How linking a node in behind a splice changes a list: the node gets a tower of its own, one link
on each of its levels leads to it, and all other links and all shapes of nodes stay as they were. -/
structure Grows (list : SkipList) (nodes : NodeStore) (front back : List Row) (new : NodeId)
    (handle : Handle) (levels : Nat) (longer : SkipList) (grown : NodeStore) : Prop where
  low : 1 ≤ levels ∧ levels ≤ list.maxHeight
  free : nodes.get? new = none
  tallied : grown.Tallied
  height : longer.height = max list.height levels
  maxHeight : longer.maxHeight = list.maxHeight
  made : (grown.get? new).map shape = some (handle, levels)
  shapes : ∀ id ≠ new, (grown.get? id).map shape = (nodes.get? id).map shape
  frame : ∀ id, id ≠ new → id ∉ ids (front ++ back) → grown.get? id = nodes.get? id
  into : ∀ level < levels, longer.linkAt grown level (lane nodes level (ids front)).getLast?
    = some (some new)
  onward : ∀ level < levels, longer.linkAt grown level (some new)
    = some (lane nodes level (ids back)).head?
  same : ∀ level place, place ≠ some new →
    (level < levels → place ≠ (lane nodes level (ids front)).getLast?) →
      longer.linkAt grown level place = list.linkAt nodes level place

namespace LinkedAs

variable {list longer : SkipList} {nodes grown : NodeStore} {rows front back : List Row}
  {new : NodeId} {handle : Handle} {levels : Nat}

/-- On each level, the links lead through the lanes of the rows in front and of those at the back. -/
theorem lanes_append (linked : list.LinkedAs nodes (front ++ back)) {level : Nat}
    (low : level < list.maxHeight) :
    Leads (list.linkAt nodes level) none
      (lane nodes level (ids front) ++ lane nodes level (ids back)) := by
  have leads := linked.lanes level low
  rwa [ids, List.map_append, lane_append] at leads

theorem insertAt_grows (linked : list.LinkedAs nodes (front ++ back)) (tallied : nodes.Tallied)
    {heights : Heights} {height : Nat}
    (done : list.insertAt nodes heights
      ((List.range list.height).map fun level => (lane nodes level (ids front)).getLast?) handle
        = .ok (grown, longer, height)) :
    ∃ new levels, Grows list nodes front back new handle levels longer grown := by
  obtain ⟨drawn, new, enters⟩ := insertAt_enters done
  have low : height ≤ list.maxHeight := drawn ▸ Nat.min_le_left ..
  have before : ∀ level < height, list.linkAt nodes level (lane nodes level (ids front)).getLast?
      = some (lane nodes level (ids back)).head? := by
    intro level reached
    have link := (linked.lanes_append (Nat.lt_of_lt_of_le reached low)).behind.link_eq
    rwa [Option.or_none] at link
  have old : ∀ level id, (lane nodes level (ids front)).getLast? = some id →
      id ∈ ids (front ++ back) := by
    intro level id last
    have inFront := (List.mem_filter.mp (List.mem_of_getLast? last)).1
    simp only [ids, List.map_append]
    exact List.mem_append_left _ inFront
  -- The new node is in none of the rows, since every row has a node.
  have fresh : ∀ level, (lane nodes level (ids front)).getLast? ≠ some new := fun level last =>
    linked.notMem_of_free enters.free (old level new last)
  refine ⟨new, height, ⟨?_, low⟩, enters.free, enters.tallied tallied, enters.height,
    enters.maxHeight, enters.made, enters.shapes, ?_, ?_, ?_, ?_⟩
  · have bounds := linked.levels
    omega
  · intro id different notIn
    refine enters.frame id different fun level _ last => notIn (old level id ?_)
    rwa [linked.splice_getD] at last
  · intro level reached
    rw [enters.linkAt level _ (fresh level), linked.splice_getD, if_pos ⟨reached, rfl⟩]
  · intro level reached
    obtain ⟨target, link, onward⟩ := enters.onward level reached
    rw [linked.splice_getD, before level reached] at link
    rw [onward, link]
  · intro level place apart elsewhere
    rw [enters.linkAt level place apart, linked.splice_getD,
      if_neg fun both => elsewhere both.1 both.2]

/-- The lanes of the rows after a node was linked in between them. -/
theorem lane_grown (linked : list.LinkedAs nodes (front ++ back))
    (grows : Grows list nodes front back new handle levels longer grown) (level : Nat) :
    lane grown level (ids (front ++ (new, handle) :: back))
      = lane nodes level (ids front)
        ++ ((if level < levels then [new] else []) ++ lane nodes level (ids back)) := by
  have old : ∀ part : List NodeId, (∀ id ∈ part, id ∈ ids (front ++ back)) →
      lane grown level part = lane nodes level part := by
    intro part sub
    refine List.filter_congr ?_
    intro id member
    have different : id ≠ new := fun same =>
      linked.notMem_of_free grows.free (same ▸ sub id member)
    rw [towerHeight_eq_of_shape (grows.shapes id different)]
  have tower : towerHeight grown new = levels := by
    obtain ⟨node, found, same⟩ := Option.map_eq_some_iff.mp grows.made
    simpa [towerHeight, found, shape] using congrArg Prod.snd same
  have parts : ids (front ++ (new, handle) :: back) = ids front ++ ([new] ++ ids back) := by
    simp [ids]
  have inFront : ∀ id ∈ ids front, id ∈ ids (front ++ back) := by simp +contextual [ids]
  have inBack : ∀ id ∈ ids back, id ∈ ids (front ++ back) := by simp +contextual [ids]
  rw [parts, lane_append, lane_append, old _ inFront, old _ inBack]
  congr 2
  simp only [lane, List.filter_cons, tower, List.filter_nil, decide_eq_true_eq]

/-- The links on a level after a node was linked in lead through the lane of all rows. -/
theorem lanes_grown (linked : list.LinkedAs nodes (front ++ back))
    (grows : Grows list nodes front back new handle levels longer grown) {level : Nat}
    (low : level < list.maxHeight) :
    Leads (longer.linkAt grown level) none
      (lane grown level (ids (front ++ (new, handle) :: back))) := by
  have leads := linked.lanes_append low
  have apart : ∀ place ∈ none :: (lane nodes level (ids front)
      ++ lane nodes level (ids back)).map some, place ≠ some new := by
    rintro place member rfl
    rw [← lane_append, ← List.map_append] at member
    have inLane : new ∈ lane nodes level (ids (front ++ back)) := by simpa using member
    exact linked.notMem_of_free grows.free (List.mem_filter.mp inLane).1
  rw [linked.lane_grown grows]
  by_cases reached : level < levels
  · have distinct : (none :: (lane nodes level (ids front)
        ++ lane nodes level (ids back)).map some).Nodup := by
      refine Leads.nodup_places ?_
      rw [← lane_append, ← List.map_append]
      exact linked.distinct.filter _
    simp only [reached, if_true, List.singleton_append]
    refine leads.insert distinct ?_ (grows.onward level reached) ?_
    · rw [Option.or_none]
      exact grows.into level reached
    · intro place member elsewhere
      rw [Option.or_none] at elsewhere
      exact grows.same level place (apart place member) fun _ => elsewhere
  · simp only [reached, if_false, List.nil_append]
    exact leads.congr fun place member =>
      grows.same level place (apart place member) fun within => absurd within reached

/-- The rows after a node was linked in between them are those of the list. -/
theorem linkedAs_grown (linked : list.LinkedAs nodes (front ++ back))
    (grows : Grows list nodes front back new handle levels longer grown) :
    longer.LinkedAs grown (front ++ (new, handle) :: back) where
  levels := by
    rw [grows.height, grows.maxHeight]
    exact ⟨Nat.le_trans linked.levels.1 (Nat.le_max_left ..),
      Nat.max_le.mpr ⟨linked.levels.2, grows.low.2⟩⟩
  distinct := by
    have fresh := linked.notMem_of_free grows.free
    have distinct := linked.distinct
    simp only [ids, List.map_append, List.map_cons] at distinct fresh ⊢
    exact List.nodup_middle.mpr (List.nodup_cons.mpr ⟨fresh, distinct⟩)
  stored := by
    have kept : ∀ row ∈ front ++ back, ∃ node, grown.get? row.1 = some node ∧
        node.handle = row.2 ∧ 1 ≤ node.next.length ∧ node.next.length ≤ longer.height := by
      intro row old
      obtain ⟨node, found, handle, low, high⟩ := linked.stored row old
      have different : row.1 ≠ new := fun same =>
        linked.notMem_of_free grows.free (same ▸ List.mem_map_of_mem old)
      have shaped := grows.shapes row.1 different
      rw [found] at shaped
      obtain ⟨changed, foundNow, same⟩ := Option.map_eq_some_iff.mp shaped
      obtain ⟨sameHandle, sameHeight⟩ := Prod.mk.inj same
      refine ⟨changed, foundNow, sameHandle.trans handle, sameHeight ▸ low, ?_⟩
      rw [sameHeight, grows.height]
      exact Nat.le_trans high (Nat.le_max_left ..)
    intro row member
    rcases List.mem_append.mp member with inFront | atOrBehind
    · exact kept row (List.mem_append_left _ inFront)
    · rcases List.mem_cons.mp atOrBehind with rfl | inBack
      · obtain ⟨node, found, same⟩ := Option.map_eq_some_iff.mp grows.made
        obtain ⟨handle, height⟩ := Prod.mk.inj same
        refine ⟨node, found, handle, height ▸ grows.low.1, ?_⟩
        rw [height, grows.height]
        exact Nat.le_max_right ..
      · exact kept row (List.mem_append_right _ inBack)
  lanes := by
    intro level low
    exact linked.lanes_grown grows (grows.maxHeight ▸ low)

/-- Linking a handle in behind its splice puts it between the rows in front and those at the back,
on a node that was free, and changes no node of other lists. -/
theorem insertAt_ok (linked : list.LinkedAs nodes (front ++ back)) (tallied : nodes.Tallied)
    {heights : Heights} {height : Nat}
    (done : list.insertAt nodes heights
      ((List.range list.height).map fun level => (lane nodes level (ids front)).getLast?) handle
        = .ok (grown, longer, height)) :
    ∃ new, nodes.get? new = none ∧ longer.LinkedAs grown (front ++ (new, handle) :: back) ∧
      longer.maxHeight = list.maxHeight ∧ grown.Tallied ∧
      ∀ id, id ≠ new → id ∉ ids (front ++ back) → grown.get? id = nodes.get? id := by
  obtain ⟨new, levels, grows⟩ := linked.insertAt_grows tallied done
  exact ⟨new, grows.free, linked.linkedAs_grown grows, grows.maxHeight, grows.tallied, grows.frame⟩

/-- The splice for an entry leads to its gap, unless the row behind the gap ties with it. -/
theorem spliceFor_cases {shelf : Shelf} {keys : Bytes → Prop} {entries : List Bytes} {entry : Bytes}
    (linked : list.LinkedAs nodes rows) (tallied : nodes.Tallied)
    (total : shelf.order.TotalOn keys) (reads : shelf.Reads (handlesOf rows) entries)
    (readable : ∀ other ∈ entries, HasKey keys other) (sorted : shelf.order.Sorted entries)
    (hasKey : HasKey keys entry) :
    ∃ first rest smaller greater, shelf.Gap entry rows entries first rest smaller greater ∧
      ((list.spliceFor nodes shelf entry = .error (.duplicateKey .skipList) ∧
          ∃ other ∈ entries, shelf.order.Ties other entry) ∨
        (list.spliceFor nodes shelf entry = .ok ((List.range list.height).map fun level =>
            (lane nodes level (ids first)).getLast?) ∧
          ∀ other ∈ greater, shelf.order.Below entry other)) := by
  obtain ⟨first, rest, smaller, greater, gap, place⟩ :=
    reads.ties_or_gap total readable sorted hasKey
  refine ⟨first, rest, smaller, greater, gap, ?_⟩
  have parted : list.LinkedAs nodes (first ++ rest) := gap.rows ▸ linked
  have splice := parted.splice_eq tallied gap.isBelow gap.notBelow
  have lowest : ((List.range list.height).map fun level =>
      (lane nodes level (ids first)).getLast?).headD none = (ids first).getLast? := by
    obtain ⟨more, height⟩ : ∃ more, list.height = more + 1 :=
      ⟨list.height - 1, by have := linked.levels.1; omega⟩
    rw [height, List.range_succ_eq_map, List.map_cons, List.headD_cons,
      parted.lane_zero (by simp +contextual [ids])]
  simp only [spliceFor, splice, bind, Except.bind, lowest, parted.link_behind]
  rcases gap.readBack.cons_cases with
    ⟨rfl, rfl⟩ | ⟨row, others, next, later, rfl, rfl, readNext⟩
  · exact .inr ⟨rfl, by simp⟩
  · obtain ⟨node, stored, handle, _⟩ := linked.stored row (by rw [gap.rows]; simp)
    simp only [ids, List.map_cons, List.head?_cons, node_eq stored, handle,
      Shelf.compareEntry_eq readNext]
    rcases place with ⟨other, head, ties⟩ | above
    · obtain rfl : next = other := by simpa using head
      have equal : shelf.order.compareEntries next entry = .ok .eq := ties
      simp only [equal]
      exact .inl ⟨rfl, next, by rw [gap.entries]; simp, ties⟩
    · have nextKey := readable next (by rw [gap.entries]; simp)
      have greater : shelf.order.compareEntries next entry = .ok .gt :=
        total.compareEntries_swap hasKey nextKey (above next List.mem_cons_self)
      simp only [greater]
      exact .inr ⟨rfl, above⟩

/-- There is a splice for every entry that ties with none in the list. -/
theorem spliceFor_ok {shelf : Shelf} {keys : Bytes → Prop} {entries : List Bytes} {entry : Bytes}
    (linked : list.LinkedAs nodes rows) (tallied : nodes.Tallied)
    (total : shelf.order.TotalOn keys) (reads : shelf.Reads (handlesOf rows) entries)
    (readable : ∀ other ∈ entries, HasKey keys other) (sorted : shelf.order.Sorted entries)
    (hasKey : HasKey keys entry) (apart : ∀ other ∈ entries, ¬ shelf.order.Ties other entry) :
    ∃ splice, list.spliceFor nodes shelf entry = .ok splice := by
  obtain ⟨_, _, _, _, _, ⟨_, other, member, ties⟩ | ⟨found, _⟩⟩ :=
    linked.spliceFor_cases tallied total reads readable sorted hasKey
  · exact absurd ties (apart other member)
  · exact ⟨_, found⟩

end LinkedAs

end SkipList

end WriteBuffer
