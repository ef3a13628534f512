import Mathlib
import WriteBuffer.Proofs.Links
import WriteBuffer.Proofs.Rows
import WriteBuffer.SkipList.Basic

/-!
Searches in skip lists. The nodes of a list whose towers reach a level form the lane of that level,
and the links of the level lead through them (`SkipList.LinkedAs`). Whatever the heights of the
towers, a search that goes down the lanes finds on each the last node below the target
(`SkipList.LinkedAs.splice_eq`), and so on the lowest what a linear search finds
(`SkipList.LinkedAs.seek_eq`).
-/
namespace WriteBuffer

namespace SkipList

/-- The link behind a place on a level, if the place has one. -/
def linkAt (list : SkipList) (nodes : NodeStore) (level : Nat) :
    Option NodeId → Option (Option NodeId)
  | none => list.head[level]?
  | some id => (nodes.get? id).bind (·.next[level]?)

def towerHeight (nodes : NodeStore) (id : NodeId) : Nat :=
  (nodes.get? id).elim 0 (·.next.length)

/-- Those of some nodes whose towers reach a level. -/
def lane (nodes : NodeStore) (level : Nat) (ids : List NodeId) : List NodeId :=
  ids.filter (level < towerHeight nodes ·)

/-- A list has exactly the given rows: on each level its links lead through those of them whose
towers reach it, and no tower is higher than the levels in use. -/
structure LinkedAs (list : SkipList) (nodes : NodeStore) (rows : List Row) : Prop where
  levels : 1 ≤ list.height ∧ list.height ≤ list.maxHeight
  distinct : (ids rows).Nodup
  stored : ∀ row ∈ rows, ∃ node, nodes.get? row.1 = some node ∧ node.handle = row.2 ∧
    1 ≤ node.next.length ∧ node.next.length ≤ list.height
  lanes : ∀ level < list.maxHeight,
    Leads (list.linkAt nodes level) none (lane nodes level (ids rows))

theorem lane_append (nodes : NodeStore) (level : Nat) (front back : List NodeId) :
    lane nodes level (front ++ back) = lane nodes level front ++ lane nodes level back :=
  List.filter_append ..

/-- A node on a level is on all levels below. -/
theorem mem_lane_of_le {nodes : NodeStore} {low high : Nat} (le : low ≤ high) {id : NodeId}
    {ids : List NodeId} (member : id ∈ lane nodes high ids) : id ∈ lane nodes low ids := by
  obtain ⟨inIds, reaches⟩ := List.mem_filter.mp member
  have reaches : high < towerHeight nodes id := by simpa using reaches
  exact List.mem_filter.mpr ⟨inIds, decide_eq_true (by omega)⟩

theorem node_eq {nodes : NodeStore} {id : NodeId} {found : TowerNode}
    (stored : nodes.get? id = some found) : node nodes id = .ok found := by
  simp [node, stored]

theorem link_eq {list : SkipList} {nodes : NodeStore} {level : Nat} {place target : Option NodeId}
    (linked : list.linkAt nodes level place = some target) :
    list.link nodes place level = .ok target := by
  cases place with
  | none =>
    simp only [linkAt] at linked
    simp only [link, links, bind, Except.bind, linked]
  | some id =>
    simp only [linkAt] at linked
    obtain ⟨found, stored, linked⟩ := Option.bind_eq_some_iff.mp linked
    simp only [link, links, node_eq stored, Except.map, bind, Except.bind, linked]

/-- Going along a level stops at the last node of a stretch that is below the target. -/
theorem advance_eq {list : SkipList} {nodes : NodeStore} {below : Handle → Except Failure Bool}
    {level fuel : Nat} {place : Option NodeId} {front back : List NodeId}
    (leads : Leads (list.linkAt nodes level) place (front ++ back))
    (yes : ∀ id ∈ front, ∃ node, nodes.get? id = some node ∧ below node.handle = .ok true)
    (no : ∀ id ∈ back, ∃ node, nodes.get? id = some node ∧ below node.handle = .ok false)
    (enough : front.length < fuel) :
    list.advance nodes below level fuel place = .ok (front.getLast?.or place) := by
  induction front generalizing place fuel with
  | nil =>
    obtain ⟨fuel, rfl⟩ : ∃ less, fuel = less + 1 := ⟨fuel - 1, by omega⟩
    simp only [advance, link_eq leads.link_eq, bind, Except.bind]
    cases back with
    | nil => rfl
    | cons next rest =>
      obtain ⟨found, stored, judged⟩ := no next List.mem_cons_self
      simp [node_eq stored, judged, pure, Except.pure]
  | cons next rest ih =>
    obtain ⟨fuel, rfl⟩ : ∃ less, fuel = less + 1 := ⟨fuel - 1, by omega⟩
    obtain ⟨found, stored, judged⟩ := yes next List.mem_cons_self
    rw [Leads.getLast?_or_cons]
    simp only [advance, link_eq leads.1, bind, Except.bind, node_eq stored, judged, if_true]
    exact ih leads.2 (fun id member => yes id (List.mem_cons_of_mem _ member))
      (by simpa using enough)

theorem linkedAs_nil (nodes : NodeStore) {levels : Nat} (positive : 0 < levels) :
    LinkedAs { head := List.replicate levels none } nodes [] where
  levels := by simpa [maxHeight] using Nat.succ_le_of_lt positive
  distinct := List.nodup_nil
  stored := by simp
  lanes := by
    intro level low
    simp only [maxHeight, List.length_replicate] at low
    simp [Leads, lane, linkAt, low]

namespace LinkedAs

variable {list : SkipList} {nodes : NodeStore} {rows front back : List Row}

theorem towerHeight_le (linked : list.LinkedAs nodes rows) {id : NodeId} (member : id ∈ ids rows) :
    1 ≤ towerHeight nodes id ∧ towerHeight nodes id ≤ list.height := by
  obtain ⟨row, inRows, rfl⟩ := List.mem_map.mp member
  obtain ⟨node, stored, _, bounds⟩ := linked.stored row inRows
  simpa [towerHeight, stored] using bounds

theorem notMem_of_free (linked : list.LinkedAs nodes rows) {id : NodeId}
    (free : nodes.get? id = none) : id ∉ ids rows := by
  intro member
  obtain ⟨row, inRows, rfl⟩ := List.mem_map.mp member
  obtain ⟨node, stored, _⟩ := linked.stored row inRows
  rw [free] at stored
  cases stored

theorem lane_zero (linked : list.LinkedAs nodes rows) {part : List NodeId}
    (sub : ∀ id ∈ part, id ∈ ids rows) : lane nodes 0 part = part := by
  refine List.filter_eq_self.mpr ?_
  intro id member
  have := (linked.towerHeight_le (sub id member)).1
  exact decide_eq_true (by omega)

theorem lane_eq_nil (linked : list.LinkedAs nodes rows) {part : List NodeId}
    (sub : ∀ id ∈ part, id ∈ ids rows) {level : Nat} (unused : list.height ≤ level) :
    lane nodes level part = [] := by
  refine List.filter_eq_nil_iff.mpr ?_
  intro id member
  have := (linked.towerHeight_le (sub id member)).2
  simp only [decide_eq_true_eq]
  omega

theorem length_le (linked : list.LinkedAs nodes rows) (tallied : nodes.Tallied) :
    rows.length ≤ nodes.size := by
  have bound := tallied.length_le linked.distinct (by
    intro id member
    obtain ⟨row, inRows, rfl⟩ := List.mem_map.mp member
    obtain ⟨node, stored, _⟩ := linked.stored row inRows
    simp [stored])
  simpa using bound

/-- What a test of handles says of rows, it says of the nodes on a lane. -/
private theorem judged (linked : list.LinkedAs nodes rows) {part : List Row}
    (sub : ∀ row ∈ part, row ∈ rows) {below : Handle → Except Failure Bool}
    {verdict : Except Failure Bool} (verdicts : ∀ row ∈ part, below row.2 = verdict) {level : Nat}
    {id : NodeId} (member : id ∈ lane nodes level (ids part)) :
    ∃ node, nodes.get? id = some node ∧ below node.handle = verdict := by
  obtain ⟨row, inPart, rfl⟩ := List.mem_map.mp (List.mem_filter.mp member).1
  obtain ⟨node, stored, handle, _⟩ := linked.stored row (sub row inPart)
  exact ⟨node, stored, handle ▸ verdicts row inPart⟩

/-- From a place among the rows in front, the links of a level lead through the rest of them. -/
private theorem leads_from (linked : list.LinkedAs nodes (front ++ back)) {level : Nat}
    (low : level < list.maxHeight) {place : Option NodeId}
    (reached : ∀ id ∈ place, id ∈ lane nodes level (ids front)) :
    ∃ rest, Leads (list.linkAt nodes level) place (rest ++ lane nodes level (ids back)) ∧
      rest.Sublist (lane nodes level (ids front)) ∧
      rest.getLast?.or place = (lane nodes level (ids front)).getLast? := by
  have leads := linked.lanes level low
  rw [ids, List.map_append, lane_append] at leads
  cases place with
  | none => exact ⟨_, leads, .refl _, by simp⟩
  | some id =>
    obtain ⟨before, rest, parts⟩ := List.append_of_mem (reached id rfl)
    have split : lane nodes level (ids front) = (before ++ [id]) ++ rest := by simp [parts]
    rw [split, List.append_assoc] at leads
    refine ⟨rest, by simpa using leads.behind, ?_, ?_⟩
    · rw [split]
      exact List.sublist_append_right ..
    · rw [split, List.getLast?_append]
      simp

/-- A search goes down from any place in front of the target that is on its highest level. -/
theorem descend_eq (linked : list.LinkedAs nodes (front ++ back)) (tallied : nodes.Tallied)
    {below : Handle → Except Failure Bool} (yes : ∀ row ∈ front, below row.2 = .ok true)
    (no : ∀ row ∈ back, below row.2 = .ok false) {levels : Nat} (low : levels ≤ list.maxHeight)
    {place : Option NodeId} (reached : ∀ id ∈ place, id ∈ lane nodes (levels - 1) (ids front)) :
    list.descend nodes below levels place
      = .ok ((List.range levels).map fun level => (lane nodes level (ids front)).getLast?) := by
  induction levels generalizing place with
  | zero => rfl
  | succ level ih =>
    obtain ⟨rest, leads, sub, last⟩ := linked.leads_from low reached
    have short : rest.length < nodes.size + 1 := by
      have inLane := sub.length_le
      have inRows := List.length_filter_le (level < towerHeight nodes ·) (ids front)
      have inStore := linked.length_le tallied
      rw [List.length_append] at inStore
      rw [List.length_map] at inRows
      simp only [lane] at inLane
      omega
    have found := advance_eq leads
      (fun id member => linked.judged (fun row inFront => by simp [inFront]) yes (sub.subset member))
      (fun id member => linked.judged (fun row inBack => by simp [inBack]) no member) short
    rw [last] at found
    simp only [descend, found, bind, Except.bind]
    rw [ih (by omega)]
    · simp [List.range_succ, pure, Except.pure]
    · intro id member
      exact mem_lane_of_le (Nat.sub_le ..) (List.mem_of_getLast? member)

/-- A splice holds, on each level in use, the last node that is below the target. -/
theorem splice_eq (linked : list.LinkedAs nodes (front ++ back)) (tallied : nodes.Tallied)
    {below : Handle → Except Failure Bool} (yes : ∀ row ∈ front, below row.2 = .ok true)
    (no : ∀ row ∈ back, below row.2 = .ok false) :
    list.splice nodes below = .ok ((List.range list.height).map fun level =>
      (lane nodes level (ids front)).getLast?) :=
  linked.descend_eq tallied yes no linked.levels.2 (by simp)

theorem seekBefore_eq (linked : list.LinkedAs nodes (front ++ back)) (tallied : nodes.Tallied)
    {below : Handle → Except Failure Bool} (yes : ∀ row ∈ front, below row.2 = .ok true)
    (no : ∀ row ∈ back, below row.2 = .ok false) :
    list.seekBefore nodes below = .ok (ids front).getLast? := by
  obtain ⟨more, height⟩ : ∃ more, list.height = more + 1 :=
    ⟨list.height - 1, by have := linked.levels.1; omega⟩
  simp only [seekBefore, linked.splice_eq tallied yes no, bind, Except.bind, pure, Except.pure,
    height, List.range_succ_eq_map, List.map_cons, List.headD_cons]
  rw [linked.lane_zero (by simp +contextual [ids])]

theorem link_behind (linked : list.LinkedAs nodes (front ++ back)) :
    list.link nodes (ids front).getLast? 0 = .ok (ids back).head? := by
  have leads := linked.lanes 0 (by have := linked.levels; omega)
  rw [linked.lane_zero (by simp), ids, List.map_append] at leads
  simpa using link_eq leads.behind.link_eq

theorem seek_eq (linked : list.LinkedAs nodes (front ++ back)) (tallied : nodes.Tallied)
    {below : Handle → Except Failure Bool} (yes : ∀ row ∈ front, below row.2 = .ok true)
    (no : ∀ row ∈ back, below row.2 = .ok false) :
    list.seek nodes below = .ok (ids back).head? := by
  simp only [seek, linked.seekBefore_eq tallied yes no, bind, Except.bind]
  exact linked.link_behind

/-- Going along a level fails at its first node if the test does, and ends at once where the level has
no node. -/
theorem advance_fails (linked : list.LinkedAs nodes rows) {below : Handle → Except Failure Bool}
    {failure : Failure} (fails : ∀ row ∈ rows, below row.2 = .error failure) {level : Nat}
    (low : level < list.maxHeight) :
    list.advance nodes below level (nodes.size + 1) none
      = if lane nodes level (ids rows) = [] then .ok none else .error failure := by
  have leads := linked.lanes level low
  cases onLevel : lane nodes level (ids rows) with
  | nil =>
    rw [onLevel] at leads
    simp [advance, link_eq leads.link_eq, bind, Except.bind, pure, Except.pure]
  | cons id rest =>
    rw [onLevel] at leads
    obtain ⟨node, stored, failed⟩ := linked.judged (fun _ member => member) fails
      (onLevel ▸ List.mem_cons_self : id ∈ lane nodes level (ids rows))
    simp [advance, link_eq leads.1, node_eq stored, failed, bind, Except.bind]

/-- A search fails at the first node that it meets if the test does. It may go down levels without a
node, but on the lowest one there is one. -/
theorem descend_fails (linked : list.LinkedAs nodes rows) {below : Handle → Except Failure Bool}
    {failure : Failure} (filled : rows ≠ []) (fails : ∀ row ∈ rows, below row.2 = .error failure)
    {level : Nat} (low : level < list.maxHeight) :
    list.descend nodes below (level + 1) none = .error failure := by
  have first := linked.advance_fails fails low
  induction level with
  | zero =>
    have some : lane nodes 0 (ids rows) ≠ [] := by
      rw [linked.lane_zero fun _ member => member]
      simpa using filled
    rw [if_neg some] at first
    simp only [descend, first, bind, Except.bind]
  | succ level ih =>
    have deeper := ih (by omega) (linked.advance_fails fails (by omega))
    rw [descend, first]
    by_cases onLevel : lane nodes (level + 1) (ids rows) = []
    · rw [if_pos onLevel]
      simp only [deeper, bind, Except.bind]
    · rw [if_neg onLevel]
      rfl

theorem seek_fails (linked : list.LinkedAs nodes rows) {below : Handle → Except Failure Bool}
    {failure : Failure} (filled : rows ≠ []) (fails : ∀ row ∈ rows, below row.2 = .error failure) :
    list.seek nodes below = .error failure := by
  obtain ⟨level, height⟩ : ∃ level, list.height = level + 1 :=
    ⟨list.height - 1, by have := linked.levels.1; omega⟩
  have low : level < list.maxHeight := by have := linked.levels.2; omega
  simp only [seek, seekBefore, splice, height, linked.descend_fails filled fails low, bind,
    Except.bind]

theorem last_eq (linked : list.LinkedAs nodes rows) (tallied : nodes.Tallied) :
    list.last nodes = .ok (ids rows).getLast? :=
  seekBefore_eq (show list.LinkedAs nodes (rows ++ []) by simpa using linked) tallied (by simp)
    (by simp)

theorem first_eq (linked : list.LinkedAs nodes rows) :
    list.first nodes = .ok (ids rows).head? :=
  link_behind (show list.LinkedAs nodes ([] ++ rows) from linked)

/-- The handles along level 0 are those of the rows. -/
theorem handlesFrom_eq (linked : list.LinkedAs nodes (front ++ back)) {fuel : Nat}
    (enough : back.length ≤ fuel) :
    handlesFrom nodes fuel (ids back).head? = .ok (handlesOf back) := by
  induction back generalizing front fuel with
  | nil => cases fuel <;> rfl
  | cons row rest ih =>
    obtain ⟨fuel, rfl⟩ : ∃ less, fuel = less + 1 :=
      ⟨fuel - 1, by rw [List.length_cons] at enough; omega⟩
    have further : list.LinkedAs nodes ((front ++ [row]) ++ rest) := by simpa using linked
    obtain ⟨node, stored, handle, _⟩ := linked.stored row (by simp)
    have onward := further.link_behind
    have next : node.next.headD none = (ids rest).head? := by
      simp only [ids, List.map_append, List.map_cons, List.map_nil, List.getLast?_append,
        List.getLast?_singleton, Option.some_or] at onward
      simp only [link, links, node_eq stored, Except.map, bind, Except.bind] at onward
      cases links : node.next with
      | nil => simp [links] at onward
      | cons first _ => simpa [links] using onward
    simp only [ids, List.map_cons, List.head?_cons, handlesFrom, node_eq stored, bind, Except.bind,
      next]
    rw [ih further (by simpa using enough)]
    simp [handle, pure, Except.pure]

theorem handles_eq (linked : list.LinkedAs nodes rows) (tallied : nodes.Tallied) :
    list.handles nodes = .ok (handlesOf rows) := by
  simp only [handles, linked.first_eq, bind, Except.bind]
  exact handlesFrom_eq (show list.LinkedAs nodes ([] ++ rows) from linked)
    (linked.length_le tallied)

end LinkedAs

end SkipList

end WriteBuffer
