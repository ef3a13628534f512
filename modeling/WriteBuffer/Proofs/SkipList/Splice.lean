import Mathlib
import WriteBuffer.Proofs.SkipList.Insert
import WriteBuffer.SkipList.Cursor

/-!
Inserts into skip lists of which nothing is known. A search ends at places that have a link on the
level it went along (`SkipList.descend_links`), so a handle can be linked in behind any splice that
was found (`SkipList.insertAt_succeeds`), whatever the order of the entries and whatever the lists.
A list as it is made leads to no node (`SkipList.Vacant`).
-/
namespace WriteBuffer

namespace SkipList

variable {list longer : SkipList} {nodes grown : NodeStore} {shelf : Shelf} {entry : Bytes}
  {below : Handle → Except Failure Bool} {place reached : Option NodeId} {splice : Splice}

/-- A step along a level ends where there is a link on that level. -/
theorem advance_link {level fuel : Nat}
    (done : list.advance nodes below level fuel place = .ok reached) :
    ∃ target, list.link nodes reached level = .ok target := by
  induction fuel generalizing place with
  | zero => cases done
  | succ fuel ih =>
    simp only [advance, bind_eq_ok] at done
    obtain ⟨target, linked, done⟩ := done
    cases target with
    | none =>
      obtain rfl := Except.ok.inj done
      exact ⟨none, linked⟩
    | some id =>
      simp only [bind_eq_ok] at done
      obtain ⟨node, _, isBelow, _, done⟩ := done
      split at done
      · exact ih done
      · obtain rfl := Except.ok.inj done
        exact ⟨some id, linked⟩

/-- A search ends at places that have links on their levels. -/
theorem descend_links {levels : Nat} (done : list.descend nodes below levels place = .ok splice) :
    splice.length = levels ∧
      ∀ level < levels, ∃ target, list.link nodes (splice.getD level none) level = .ok target := by
  induction levels generalizing place splice with
  | zero =>
    obtain rfl := Except.ok.inj done
    exact ⟨rfl, by simp⟩
  | succ top ih =>
    simp only [descend, bind_eq_ok, pure, Except.pure, Except.ok.injEq] at done
    obtain ⟨reached, advanced, lower, descended, rfl⟩ := done
    obtain ⟨length, links⟩ := ih descended
    refine ⟨by simp [length], fun level low => ?_⟩
    by_cases last : level = top
    · subst last
      simpa [List.getD_eq_getElem?_getD, ← length] using advance_link advanced
    · have lower : level < top := by omega
      simpa [List.getD_eq_getElem?_getD, List.getElem?_append_left (length ▸ lower)]
        using links level lower

/-- A place that was found for an entry has a link on every level of the list. -/
theorem spliceFor_links (found : list.spliceFor nodes shelf entry = .ok splice) {level : Nat}
    (low : level < list.maxHeight) :
    ∃ target, list.link nodes (splice.getD level none) level = .ok target := by
  have searched : list.splice nodes (shelf.isBelowEntry entry) = .ok splice := by
    simp only [spliceFor, bind_eq_ok] at found
    obtain ⟨places, searched, next, _, found⟩ := found
    rw [searched]
    cases next with
    | none => exact found
    | some id =>
      simp only [bind_eq_ok] at found
      obtain ⟨node, _, ordering, _, found⟩ := found
      cases ordering with
      | eq => cases found
      | lt | gt => exact found
  obtain ⟨length, links⟩ := descend_links searched
  by_cases used : level < list.height
  · exact links level used
  · have unused : splice.getD level none = none := by
      rw [List.getD_eq_getElem?_getD, List.getElem?_eq_none (by omega), Option.getD_none]
    rw [unused]
    have onHead : list.head[level]? = some list.head[level] := List.getElem?_eq_getElem low
    exact ⟨list.head[level], by
      simp only [link, SkipList.links, bind, Except.bind, onHead]⟩

/-- A handle can be linked in at a place that was found, if there is room for its node. -/
theorem insertAt_succeeds (found : list.spliceFor nodes shelf entry = .ok splice)
    (heights : Heights) (handle : Handle)
    (room : ∀ node, ∃ stored id, nodes.push node = (stored, .ok id)) :
    ∃ result, list.insertAt nodes heights splice handle = .ok result := by
  let next := fun level => (list.link nodes (splice.getD level none) level).toOption.join
  let levels := List.range (min list.maxHeight (max 1 (heights nodes.size)))
  have linked : levels.mapM (fun level => list.link nodes (splice.getD level none) level)
      = .ok (levels.map next) := by
    refine mapM_eq_map fun level member => ?_
    have low := Nat.lt_of_lt_of_le (List.mem_range.mp member) (Nat.min_le_left ..)
    obtain ⟨target, link⟩ := spliceFor_links found low
    simp only [next, link, Except.toOption, Option.join_some]
  obtain ⟨stored, id, pushed⟩ := room ⟨handle, levels.map next⟩
  simp only [levels] at linked pushed
  simp only [insertAt, linked, pushed, bind, Except.bind]
  exact ⟨_, rfl⟩

/-- Linking a handle in makes one node, and changes links beyond that. -/
theorem insertAt_roomy {heights : Heights} {handle : Handle} {height : Nat} {arena : Arena}
    (done : list.insertAt nodes heights splice handle = .ok (grown, longer, height))
    (room : ∀ node, ∃ stored id, nodes.push node = (stored, .ok id) ∧ Roomy arena stored) :
    Roomy arena grown := by
  simp only [insertAt, bind_eq_ok] at done
  obtain ⟨onward, _, done⟩ := done
  obtain ⟨stored, id, pushed, roomy⟩ := room ⟨handle, onward⟩
  simp only [pushed, pure, Except.pure, Except.ok.injEq, Prod.mk.injEq] at done
  obtain ⟨rfl, _⟩ := done
  exact foldl_relink_keeps (P := Roomy arena) (fun _ _ _ kept => kept.update _ _) id _ _ _ roomy

/-- A list has no node on its one level in use. -/
structure Vacant (list : SkipList) : Prop where
  height : list.height = 1
  first : list.head[0]? = some none

instance (list : SkipList) : Decidable list.Vacant :=
  decidable_of_iff (list.height = 1 ∧ list.head[0]? = some none)
    ⟨fun parts => ⟨parts.1, parts.2⟩, fun vacant => ⟨vacant.height, vacant.first⟩⟩

theorem vacant_create {maxHeight branching : Nat} (made : create maxHeight branching = .ok list) :
    list.Vacant := by
  simp only [create] at made
  split at made
  · cases made
  · split at made
    · cases made
    · next lowest _ =>
      obtain rfl := Except.ok.inj made
      exact ⟨rfl, List.getElem?_replicate_of_lt (by omega)⟩

section Vacant

variable (vacant : list.Vacant)
include vacant

theorem Vacant.link_eq (nodes : NodeStore) : list.link nodes none 0 = .ok none := by
  simp only [link, links, bind, Except.bind, vacant.first]

theorem Vacant.splice_eq (nodes : NodeStore) (below : Handle → Except Failure Bool) :
    list.splice nodes below = .ok [none] := by
  simp only [splice, vacant.height, descend, advance, vacant.link_eq, bind, Except.bind, pure,
    Except.pure, List.nil_append]

theorem Vacant.seek_eq (nodes : NodeStore) (below : Handle → Except Failure Bool) :
    list.seek nodes below = .ok none := by
  simp only [seek, seekBefore, vacant.splice_eq, vacant.link_eq, bind, Except.bind, pure,
    Except.pure, List.headD_cons]

theorem Vacant.spliceFor_eq (nodes : NodeStore) (shelf : Shelf) (entry : Bytes) :
    list.spliceFor nodes shelf entry = .ok [none] := by
  simp only [spliceFor, vacant.splice_eq, vacant.link_eq, bind, Except.bind, pure, Except.pure,
    List.headD_cons]

theorem Vacant.contains_eq (nodes : NodeStore) (shelf : Shelf) (internalKey : Bytes) :
    list.contains nodes shelf internalKey = .ok false := by
  simp only [contains, vacant.seek_eq, bind, Except.bind, pure, Except.pure]

theorem Vacant.handles_eq (nodes : NodeStore) : list.handles nodes = .ok [] := by
  have start : list.first nodes = .ok none := vacant.link_eq nodes
  simp only [handles, start, bind, Except.bind]
  cases nodes.size <;> rfl

theorem Vacant.visitFrom_eq (nodes : NodeStore) (shelf : Shelf) (internalKey : Bytes)
    (goesOn : List Bytes → Bool) :
    (list.moves nodes shelf).visitFrom none internalKey goesOn = .ok [] := by
  have unmoved : (list.moves nodes shelf).seek internalKey none = .ok none := vacant.seek_eq ..
  simp only [Moves.visitFrom, unmoved, bind, Except.bind]
  cases (list.moves nodes shelf).span none <;> rfl

end Vacant

end SkipList

end WriteBuffer
