import Mathlib
import WriteBuffer.Proofs.SkipList.Renaming

/-!
Lists whose links go on for no longer than there are nodes. On each level the links lead from the head
through every node of the store that reaches the level, once, and then end (`SkipList.Woven`). This
needs no order among the entries and holds of a list that has a store to itself: a handle may be linked
in behind any places that have links (`SkipList.Woven.enters`). Searches in such a list end in as many
steps as its store has nodes (`SkipList.Woven.steady`).
-/
namespace WriteBuffer

namespace SkipList

/-- On each level the links lead through all nodes that reach it and then end. -/
structure Woven (list : SkipList) (nodes : NodeStore) : Prop where
  tallied : nodes.Tallied
  towers : ∀ id, towerHeight nodes id ≤ list.maxHeight
  paths : ∀ level < list.maxHeight, ∃ path, Leads (list.linkAt nodes level) none path ∧
    path.Nodup ∧ ∀ id, id ∈ path ↔ level < towerHeight nodes id

variable {list longer : SkipList} {nodes grown : NodeStore} {place : Option NodeId}
  {ids : List NodeId} {level fuel more : Nat}

theorem create_eq {most branching : Nat} (made : create most branching = .ok list) :
    list = { head := List.replicate most none } := by
  simp only [create] at made
  split at made
  · cases made
  · split at made
    · cases made
    · exact (Except.ok.inj made).symm

theorem woven_empty {most branching : Nat} (made : create most branching = .ok list) :
    list.Woven .empty where
  tallied := ChunkStore.tallied_empty
  towers id := by simp [towerHeight]
  paths := by
    intro level low
    obtain rfl := create_eq made
    rw [maxHeight, List.length_replicate] at low
    exact ⟨[], by simp [Leads, linkAt, low], .nil, by simp [towerHeight]⟩

/-- Going along links that end takes no more steps than there are nodes on the way. -/
theorem advance_of_leads (leads : Leads (list.linkAt nodes level) place ids)
    (stored : ∀ id ∈ ids, Within nodes (some id)) (below : Handle → Except Failure Bool)
    (enough : ids.length < fuel) (also : ids.length < more) :
    list.advance nodes below level fuel place = list.advance nodes below level more place := by
  induction ids generalizing place fuel more with
  | nil =>
    obtain ⟨fuel, rfl⟩ : ∃ less, fuel = less + 1 := ⟨fuel - 1, by omega⟩
    obtain ⟨more, rfl⟩ : ∃ less, more = less + 1 := ⟨more - 1, by omega⟩
    simp only [advance, link_eq leads.link_eq, List.head?_nil, bind, Except.bind]
  | cons id rest ih =>
    obtain ⟨fuel, rfl⟩ : ∃ less, fuel = less + 1 := ⟨fuel - 1, by omega⟩
    obtain ⟨more, rfl⟩ : ∃ less, more = less + 1 := ⟨more - 1, by omega⟩
    rw [List.length_cons] at enough also
    have onward : ∀ other ∈ rest, Within nodes (some other) := fun other member =>
      stored other (List.mem_cons_of_mem _ member)
    simp only [advance, link_eq leads.1, bind, Except.bind,
      ih leads.2 onward (show rest.length < fuel by omega) (show rest.length < more by omega)]

theorem handlesFrom_of_leads (leads : Leads (list.linkAt nodes 0) place ids)
    (stored : ∀ id ∈ ids, Within nodes (some id)) (enough : ids.length ≤ fuel)
    (also : ids.length ≤ more) :
    handlesFrom nodes fuel ids.head? = handlesFrom nodes more ids.head? := by
  induction ids generalizing place fuel more with
  | nil => cases fuel <;> cases more <;> rfl
  | cons id rest ih =>
    rw [List.length_cons] at enough also
    obtain ⟨fuel, rfl⟩ : ∃ less, fuel = less + 1 := ⟨fuel - 1, by omega⟩
    obtain ⟨more, rfl⟩ : ∃ less, more = less + 1 := ⟨more - 1, by omega⟩
    obtain ⟨node, there⟩ := within_some.mp (stored id List.mem_cons_self)
    have next : node.next.headD none = rest.head? := by
      have link := leads.2.link_eq
      simp only [linkAt, there, Option.bind_some] at link
      rw [List.headD_eq_head?_getD, List.head?_eq_getElem?, link, Option.getD_some]
    have onward := ih leads.2 (fun other member => stored other (List.mem_cons_of_mem _ member))
      (show rest.length ≤ fuel by omega) (show rest.length ≤ more by omega)
    simp only [List.head?_cons, handlesFrom, node_eq there, bind, Except.bind, next, onward]

theorem linkAt_some_iff {id : NodeId} :
    (∃ target, list.linkAt nodes level (some id) = some target) ↔ level < towerHeight nodes id := by
  cases stored : nodes.get? id with
  | none => simp [linkAt, towerHeight, stored]
  | some node =>
    simp only [linkAt, towerHeight, stored, Option.bind_some, Option.elim_some,
      List.getElem?_eq_some_iff]
    constructor
    · rintro ⟨_, low, _⟩
      exact low
    · exact fun low => ⟨_, low, rfl⟩

theorem within_of_reached {id : NodeId} (reached : level < towerHeight nodes id) :
    Within nodes (some id) := by
  cases stored : nodes.get? id with
  | none => simp [towerHeight, stored] at reached
  | some node => exact within_some.mpr ⟨node, stored⟩

namespace Woven

/-- The path of a level is parted at every place that has a link on it. -/
theorem exists_parts (woven : list.Woven nodes) {target : Option NodeId}
    (linked : list.linkAt nodes level place = some target) :
    level < list.maxHeight ∧ ∃ front back, Leads (list.linkAt nodes level) none (front ++ back) ∧
      (front ++ back).Nodup ∧ (∀ id, id ∈ front ++ back ↔ level < towerHeight nodes id) ∧
      front.getLast?.or none = place := by
  cases place with
  | none =>
    have low : level < list.maxHeight := (List.getElem?_eq_some_iff.mp linked).1
    obtain ⟨path, leads, distinct, members⟩ := woven.paths level low
    exact ⟨low, [], path, leads, distinct, members, rfl⟩
  | some id =>
    have reached := linkAt_some_iff.mp ⟨target, linked⟩
    have low := Nat.lt_of_lt_of_le reached (woven.towers id)
    obtain ⟨path, leads, distinct, members⟩ := woven.paths level low
    obtain ⟨front, back, rfl⟩ := List.append_of_mem ((members id).mpr reached)
    refine ⟨low, front ++ [id], back, ?_, ?_, ?_, by simp⟩
    · simpa using leads
    · simpa using distinct
    · simpa using members

/-- Searches end in as many steps as there are nodes. -/
theorem steady (woven : list.Woven nodes) {size : Nat} (larger : nodes.size ≤ size) :
    list.Steady nodes size := by
  have short : ∀ {level : Nat} {path : List NodeId}, path.Nodup →
      (∀ id, id ∈ path ↔ level < towerHeight nodes id) → path.length ≤ nodes.size :=
    fun distinct members =>
      woven.tallied.length_le distinct fun id member =>
        within_of_reached ((members id).mp member) id rfl
  constructor
  · intro place inside below level
    cases linked : list.linkAt nodes level place with
    | none =>
      have stuck : list.link nodes place level = .error .outOfRange := by
        rw [link_eq_linkAt inside, linked]
      simp only [advance, stuck, bind, Except.bind]
    | some target =>
      obtain ⟨_, front, back, leads, distinct, members, rfl⟩ := woven.exists_parts linked
      have few := short distinct members
      rw [List.length_append] at few
      refine advance_of_leads leads.behind ?_ below (by omega) (by omega)
      intro id member
      exact within_of_reached ((members id).mp (List.mem_append_right _ member))
  · intro first found
    have linked := linkAt_of_link found
    have low : 0 < list.maxHeight := (List.getElem?_eq_some_iff.mp linked).1
    obtain ⟨path, leads, distinct, members⟩ := woven.paths 0 low
    have few := short distinct members
    obtain rfl : path.head? = first := Option.some.inj (leads.link_eq.symm.trans linked)
    exact handlesFrom_of_leads leads (fun id member => within_of_reached ((members id).mp member))
      (few.trans larger) few

variable {splice : Splice} {handle : Handle} {levels : Nat} {new : NodeId}

/-- A list stays so when a handle is linked in. -/
theorem enters (woven : list.Woven nodes)
    (enters : Entering list nodes splice handle levels new longer grown)
    (low : levels ≤ list.maxHeight) : longer.Woven grown := by
  have tower : towerHeight grown new = levels := by
    obtain ⟨node, stored, same⟩ := Option.map_eq_some_iff.mp enters.made
    simpa [towerHeight, stored, shape] using congrArg Prod.snd same
  have others : ∀ id ≠ new, towerHeight grown id = towerHeight nodes id := fun id different =>
    towerHeight_eq_of_shape (enters.shapes id different)
  have fresh : towerHeight nodes new = 0 := by simp [towerHeight, enters.free]
  refine ⟨enters.tallied woven.tallied, ?_, ?_⟩
  · intro id
    rw [enters.maxHeight]
    by_cases isNew : id = new
    · rwa [isNew, tower]
    · rw [others id isNew]
      exact woven.towers id
  · intro level inUse
    rw [enters.maxHeight] at inUse
    by_cases reached : level < levels
    · obtain ⟨target, linked, onward⟩ := enters.onward level reached
      obtain ⟨_, front, back, leads, distinct, members, behind⟩ := woven.exists_parts linked
      have apart : new ∉ front ++ back := by
        rw [members, fresh]
        omega
      refine ⟨front ++ new :: back, ?_, ?_, ?_⟩
      · have same : ∀ other ∈ none :: (front ++ back).map some,
            other ≠ front.getLast?.or none →
            longer.linkAt grown level other = list.linkAt nodes level other := by
          intro other member elsewhere
          rw [enters.linkAt level other, if_neg fun both => elsewhere (both.2.trans behind.symm)]
          rintro rfl
          exact apart (by simpa using member)
        refine Leads.insert leads (Leads.nodup_places distinct) ?_ ?_ same
        · rw [behind, enters.linkAt level _ (enters.ne_new ?_), if_pos ⟨reached, rfl⟩]
          rw [← behind]
          intro id last
          simp only [Option.or_none] at last
          have inPath := List.mem_append_left back (List.mem_of_getLast? last)
          exact within_of_reached ((members id).mp inPath) id rfl
        · rw [onward, ← linked, ← behind, leads.behind.link_eq]
      · exact List.nodup_middle.mpr (List.nodup_cons.mpr ⟨apart, distinct⟩)
      · intro id
        by_cases isNew : id = new
        · simp [isNew, tower, reached]
        · rw [others id isNew, ← members]
          simp [isNew]
    · obtain ⟨path, leads, distinct, members⟩ := woven.paths level inUse
      refine ⟨path, leads.congr ?_, distinct, ?_⟩
      · intro other member
        rw [enters.linkAt level other, if_neg fun both => reached both.1]
        rintro rfl
        have inPath : new ∈ path := by simpa using member
        rw [members, fresh] at inPath
        omega
      · intro id
        by_cases isNew : id = new
        · rw [members, isNew, tower, fresh]
          omega
        · rw [members, others id isNew]

end Woven

end SkipList

end WriteBuffer
