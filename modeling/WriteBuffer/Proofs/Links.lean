import Mathlib
import WriteBuffer.Store.Chunks

/-!
Paths along links. A place is a node, or the one in front of all nodes; following the links from a
place leads through a list of nodes and then ends (`Leads`). A path is cut at each of its nodes
(`Leads.behind`), and a node is taken in by making one link lead to it (`Leads.insert`).
-/
namespace WriteBuffer

/-- Following links from a place leads through the given nodes, one by one, and then ends. -/
def Leads (link : Option NodeId → Option (Option NodeId)) : Option NodeId → List NodeId → Prop
  | place, [] => link place = some none
  | place, id :: rest => link place = some (some id) ∧ Leads link (some id) rest

namespace Leads

variable {link changed : Option NodeId → Option (Option NodeId)} {place : Option NodeId}
  {ids front back : List NodeId}

theorem link_eq (leads : Leads link place ids) : link place = some ids.head? := by
  cases ids with
  | nil => exact leads
  | cons id rest => exact leads.1

theorem getLast?_or_cons (id : NodeId) (rest : List NodeId) (place : Option NodeId) :
    (id :: rest).getLast?.or place = rest.getLast?.or (some id) := by
  cases rest with
  | nil => rfl
  | cons next others =>
    rw [List.getLast?_cons_cons, List.getLast?_eq_some_getLast (by simp)]
    simp

/-- A path goes on behind each of its nodes. -/
theorem behind (leads : Leads link place (front ++ back)) :
    Leads link (front.getLast?.or place) back := by
  induction front generalizing place with
  | nil => exact leads
  | cons id rest ih =>
    rw [getLast?_or_cons]
    exact ih leads.2

theorem congr (leads : Leads link place ids)
    (same : ∀ other ∈ place :: ids.map some, changed other = link other) :
    Leads changed place ids := by
  induction ids generalizing place with
  | nil => exact (same place List.mem_cons_self).trans leads
  | cons id rest ih =>
    refine ⟨(same place List.mem_cons_self).trans leads.1, ih leads.2 ?_⟩
    intro other member
    exact same other (List.mem_cons_of_mem _ (by simpa using member))

/-- A node is taken in by a link to it from the last node in front and a link from it to the first
node behind. -/
theorem insert {new : NodeId} (leads : Leads link place (front ++ back))
    (distinct : (place :: (front ++ back).map some).Nodup)
    (into : changed (front.getLast?.or place) = some (some new))
    (onward : changed (some new) = some back.head?)
    (same : ∀ other ∈ place :: (front ++ back).map some, other ≠ front.getLast?.or place →
      changed other = link other) :
    Leads changed place (front ++ new :: back) := by
  induction front generalizing place with
  | nil =>
    refine ⟨into, ?_⟩
    cases back with
    | nil => exact onward
    | cons next rest =>
      refine ⟨onward, congr leads.2 ?_⟩
      intro other member
      obtain ⟨fresh, _⟩ := List.nodup_cons.mp distinct
      refine same other (List.mem_cons_of_mem _ (by simpa using member)) ?_
      rintro rfl
      exact fresh (by simpa using member)
  | cons id rest ih =>
    rw [getLast?_or_cons] at into same
    obtain ⟨fresh, distinct⟩ := List.nodup_cons.mp distinct
    have inPath : rest.getLast?.or (some id) ∈ ((id :: rest) ++ back).map some := by
      cases last : rest.getLast? with
      | none => simp
      | some found => simp [List.mem_of_getLast? last]
    refine ⟨(same place List.mem_cons_self ?_).trans leads.1, ih leads.2 (by simpa using distinct)
      into ?_⟩
    · rintro rfl
      exact fresh inPath
    · intro other member
      exact same other (List.mem_cons_of_mem _ (by simpa using member))

theorem nodup_places (distinct : ids.Nodup) : (none :: ids.map some).Nodup := by
  refine List.nodup_cons.mpr ⟨by simp, ?_⟩
  exact distinct.map (Option.some_injective _)

end Leads

end WriteBuffer
