import Mathlib
import WriteBuffer.Proofs.MergeImages

/-!
The loop that merges runs, where comparisons come from a total preorder (`Weighs`). The merge of the
standard library, run by run, takes the least head of what is left of the runs, and of equal heads that
of the earliest run (`mergeAll_take`). A heap of all these heads pops the same one, since nothing else
is greatest in its order (`mergeAll_pop`), and the next element of that run is the next head
(`Left.split`). So whatever a heap pops until it is empty (`Drains`) is that merge (`drains_iff`), and
the loop computes it (`mergeRuns_eq`).
-/
namespace WriteBuffer

variable {α β : Type}

/-- The merge of runs, of which the first has precedence. -/
def mergeAll (le : α → α → Bool) (runs : List (List α)) : List α :=
  runs.foldr (fun run merged => run.merge merged le) []

section Library

variable {le : α → α → Bool} {x : α} {run : List α} {runs earlier later : List (List α)}

@[simp] theorem mergeAll_nil (le : α → α → Bool) : mergeAll le [] = [] := rfl

@[simp] theorem mergeAll_cons (le : α → α → Bool) (run : List α) (runs : List (List α)) :
    mergeAll le (run :: runs) = run.merge (mergeAll le runs) le := rfl

theorem mergeAll_perm (le : α → α → Bool) (runs : List (List α)) :
    (mergeAll le runs).Perm runs.flatten := by
  induction runs with
  | nil => rfl
  | cons run runs ih => exact (List.merge_perm_append le).trans (ih.append_left run)

theorem mergeAll_sorted (trans : ∀ x y z, le x y = true → le y z = true → le x z = true)
    (total : ∀ x y, (le x y || le y x) = true)
    (sorted : ∀ run ∈ runs, run.Pairwise fun x y => le x y = true) :
    (mergeAll le runs).Pairwise fun x y => le x y = true := by
  induction runs with
  | nil => exact .nil
  | cons run runs ih =>
    obtain ⟨sortedRun, sortedRest⟩ := List.forall_mem_cons.mp sorted
    exact List.pairwise_merge trans total _ _ sortedRun (ih sortedRest)

theorem map_mergeAll (f : α → β) (le : β → β → Bool) (runs : List (List α)) :
    (mergeAll (fun x y => le (f x) (f y)) runs).map f = mergeAll le (runs.map (·.map f)) := by
  induction runs with
  | nil => rfl
  | cons run runs ih =>
    rw [mergeAll_cons, List.map_merge (s := le) fun _ _ _ _ => rfl, ih, List.map_cons, mergeAll_cons]

/-- What comes first of the merged runs comes first in one of them. -/
theorem exists_head_mergeAll (first : x ∈ (mergeAll le runs).head?) :
    ∃ run ∈ runs, x ∈ run.head? := by
  induction runs with
  | nil => simp at first
  | cons run rest ih =>
    rw [mergeAll_cons] at first
    match run, merged : mergeAll le rest with
    | [], _ =>
      rw [List.nil_merge] at first
      obtain ⟨other, member, head⟩ := ih first
      exact ⟨other, List.mem_cons_of_mem _ member, head⟩
    | y :: ys, [] => exact ⟨y :: ys, List.mem_cons_self, by simpa [merged] using first⟩
    | y :: ys, z :: zs =>
      rw [merged, List.cons_merge_cons] at first
      split at first
      · exact ⟨y :: ys, List.mem_cons_self, by simpa using first⟩
      · obtain ⟨other, member, head⟩ := ih (by simpa [merged] using first)
        exact ⟨other, List.mem_cons_of_mem _ member, head⟩

/-- A head that is below the heads of earlier runs and not above those of later runs comes first. -/
theorem mergeAll_take (aboveIt : ∀ other ∈ earlier, ∀ y ∈ other.head?, le y x = false)
    (notBelowIt : ∀ other ∈ later, ∀ y ∈ other.head?, le x y = true) :
    mergeAll le (earlier ++ (x :: run) :: later) = x :: mergeAll le (earlier ++ run :: later) := by
  induction earlier with
  | nil =>
    simp only [List.nil_append, mergeAll_cons]
    cases merged : mergeAll le later with
    | nil => simp
    | cons y ys =>
      have first : y ∈ (mergeAll le later).head? := by simp [merged]
      obtain ⟨other, member, head⟩ := exists_head_mergeAll first
      rw [List.cons_merge_cons, if_pos (notBelowIt other member y head)]
  | cons first rest ih =>
    rw [List.cons_append, mergeAll_cons,
      ih fun other member => aboveIt other (List.mem_cons_of_mem _ member), List.cons_append,
      mergeAll_cons]
    cases first with
    | nil => simp
    | cons y ys =>
      rw [List.cons_merge_cons, if_neg]
      simp [aboveIt (y :: ys) List.mem_cons_self y rfl]

theorem heads_perm (earlier later : List (List α)) (run : List α) :
    ((earlier ++ run :: later).filterMap List.head?).Perm
      (run.head?.toList ++ (earlier ++ later).filterMap List.head?) := by
  have middle : (earlier ++ run :: later).Perm (run :: (earlier ++ later)) := List.perm_middle
  have perm := middle.filterMap List.head?
  rw [List.filterMap_cons] at perm
  cases run <;> exact perm

end Library

namespace Occurrence

def inRun (number : Nat) (run : List α) : List (Occurrence α) :=
  run.mapIdx fun position element => ⟨number, position, element⟩

/-- The occurrences in runs that are numbered from `number` on. -/
def inRuns : (number : Nat) → List (List α) → List (List (Occurrence α))
  | _, [] => []
  | number, run :: runs => inRun number run :: inRuns (number + 1) runs

@[simp] theorem map_inRun (number : Nat) (run : List α) : (inRun number run).map element = run := by
  refine List.ext_getElem (by simp [inRun]) ?_
  intro index _ _
  simp [inRun]

@[simp] theorem map_inRuns (number : Nat) (runs : List (List α)) :
    (inRuns number runs).map (·.map element) = runs := by
  induction runs generalizing number with
  | nil => rfl
  | cons run runs ih => rw [inRuns, List.map_cons, map_inRun, ih]

theorem getElem?_inRun (number index : Nat) (run : List α) :
    (inRun number run)[index]? = (run[index]?).map fun element => ⟨number, index, element⟩ := by
  rw [inRun, List.getElem?_mapIdx]

theorem getElem?_inRuns (number index : Nat) (runs : List (List α)) :
    (inRuns number runs)[index]? = (runs[index]?).map (inRun (number + index)) := by
  induction runs generalizing number index with
  | nil => simp [inRuns]
  | cons run runs ih =>
    cases index with
    | zero => simp [inRuns]
    | succ index =>
      simp only [inRuns, List.getElem?_cons_succ, ih]
      rw [show number + 1 + index = number + (index + 1) by omega]

theorem run_eq_of_mem {number : Nat} {run : List α} {a : Occurrence α}
    (member : a ∈ inRun number run) : a.run = number := by
  obtain ⟨position, _, same⟩ := List.mem_mapIdx.mp member
  rw [← same]

theorem length_inRuns (number : Nat) (runs : List (List α)) :
    (inRuns number runs).flatten.length = runs.flatten.length := by
  conv_rhs => rw [← map_inRuns number runs, ← List.map_flatten, List.length_map]

end Occurrence

theorem heads_eq (runs : List (List α)) :
    heads runs = (Occurrence.inRuns 0 runs).filterMap List.head? := by
  have numbered : Occurrence.inRuns 0 runs
      = runs.zipIdx.map fun numbered => Occurrence.inRun numbered.2 numbered.1 := by
    refine List.ext_getElem? fun index => ?_
    rw [Occurrence.getElem?_inRuns, List.getElem?_map, List.getElem?_zipIdx, Option.map_map]
    rfl
  rw [heads, numbered, List.filterMap_map]
  refine List.filterMap_congr ?_
  rintro ⟨run, number⟩ _
  cases run <;> simp [Occurrence.inRun]

/-- The occurrences that are left of runs when some of each run are taken from its front. -/
def Left (runs : List (List α)) (left : List (List (Occurrence α))) : Prop :=
  ∀ number, ∃ taken, left[number]? = (runs[number]?).map fun run =>
    (Occurrence.inRun number run).drop taken

namespace Left

variable {runs : List (List α)} {left : List (List (Occurrence α))} {number : Nat}
  {item : Occurrence α} {rest : List (Occurrence α)}

theorem all (runs : List (List α)) : Left runs (Occurrence.inRuns 0 runs) := by
  intro number
  refine ⟨0, ?_⟩
  rw [Occurrence.getElem?_inRuns, Nat.zero_add]
  rfl

theorem run_eq (isLeft : Left runs left) (found : left[number]? = some rest) (member : item ∈ rest) :
    item.run = number := by
  obtain ⟨taken, lookup⟩ := isLeft number
  rw [found] at lookup
  obtain ⟨run, _, rfl⟩ := Option.map_eq_some_iff.mp lookup.symm
  exact Occurrence.run_eq_of_mem (List.mem_of_mem_drop member)

theorem occurrence?_eq (isLeft : Left runs left) (found : left[number]? = some (item :: rest)) :
    occurrence? runs item.run (item.position + 1) = rest.head? := by
  obtain ⟨taken, lookup⟩ := isLeft number
  rw [found] at lookup
  obtain ⟨run, foundRun, dropped⟩ := Option.map_eq_some_iff.mp lookup.symm
  have first := congrArg List.head? dropped
  have behind := congrArg (fun occurrences => (occurrences.drop 1).head?) dropped
  simp only [List.drop_drop, List.head?_drop, Occurrence.getElem?_inRun] at first behind
  obtain ⟨element, _, rfl⟩ := Option.map_eq_some_iff.mp first
  rw [occurrence?, foundRun, List.head?_eq_getElem?]
  exact behind

theorem tail (isLeft : Left runs left) (found : left[number]? = some (item :: rest)) :
    Left runs (left.set number rest) := by
  intro other
  obtain ⟨taken, lookup⟩ := isLeft other
  by_cases same : number = other
  · subst same
    rw [found] at lookup
    obtain ⟨run, foundRun, dropped⟩ := Option.map_eq_some_iff.mp lookup.symm
    refine ⟨taken + 1, ?_⟩
    rw [List.getElem?_set_self (List.getElem?_eq_some_iff.mp found).1, foundRun, Option.map_some,
      ← List.drop_drop, dropped]
    rfl
  · exact ⟨taken, by rw [List.getElem?_set_ne same, lookup]⟩

/-- A pending occurrence is the head of what is left of its run, and it may be taken. -/
theorem split (isLeft : Left runs left) (pending : item ∈ left.filterMap List.head?) :
    ∃ earlier rest later, left = earlier ++ (item :: rest) :: later ∧
      Left runs (earlier ++ rest :: later) ∧
      occurrence? runs item.run (item.position + 1) = rest.head? ∧
      ∀ occurrences ∈ earlier, ∀ other ∈ occurrences, other.run < item.run := by
  obtain ⟨occurrences, member, first⟩ := List.mem_filterMap.mp pending
  obtain ⟨rest, rfl⟩ := List.head?_eq_some_iff.mp first
  obtain ⟨number, found⟩ := List.mem_iff_getElem?.mp member
  have numbered := isLeft.run_eq found List.mem_cons_self
  have tailed := isLeft.tail found
  obtain ⟨bound, here⟩ := List.getElem?_eq_some_iff.mp found
  refine ⟨left.take number, rest, left.drop (number + 1), ?_, ?_, isLeft.occurrence?_eq found, ?_⟩
  · rw [← here, List.getElem_cons_drop, List.take_append_drop]
  · rwa [List.set_eq_take_append_cons_drop, if_pos bound] at tailed
  · intro occurrences ahead other inside
    obtain ⟨index, less, rfl⟩ := List.mem_take_iff_getElem.mp ahead
    have := isLeft.run_eq (List.getElem?_eq_getElem (by omega)) inside
    omega

end Left

/-- A comparison of what elements stand for is a total preorder of the elements. -/
structure Weighs (compare : β → β → Except Failure Ordering) (f : α → β) (le : α → α → Bool) :
    Prop where
  answers : ∀ x y, ∃ ordering, compare (f x) (f y) = .ok ordering ∧ (le x y = true ↔ ordering ≠ .gt)
  swap : ∀ x y ordering, compare (f x) (f y) = .ok ordering → compare (f y) (f x) = .ok ordering.swap
  trans : ∀ x y z, le x y = true → le y z = true → le x z = true

/-- The order in which heads of runs are merged. -/
def Occurrence.precedes (le : α → α → Bool) (a b : Occurrence α) : Bool :=
  le a.element b.element && (!le b.element a.element || decide (a.run ≤ b.run))

/-- An order of the elements, refined where they are equal, is transitive if the refinement is. -/
theorem Occurrence.tieBreak_trans {le : α → α → Bool}
    (trans : ∀ x y z, le x y = true → le y z = true → le x z = true)
    (tie : Occurrence α → Occurrence α → Prop) [DecidableRel tie]
    (tieTrans : ∀ a b c, tie a b → tie b c → tie a c) (a b c : Occurrence α)
    (ab : (le a.element b.element && (!le b.element a.element || decide (tie a b))) = true)
    (bc : (le b.element c.element && (!le c.element b.element || decide (tie b c))) = true) :
    (le a.element c.element && (!le c.element a.element || decide (tie a c))) = true := by
  simp only [Bool.and_eq_true, Bool.or_eq_true, Bool.not_eq_true', decide_eq_true_eq] at ab bc ⊢
  refine ⟨trans _ _ _ ab.1 bc.1, ?_⟩
  -- If the outer two are equal, the one between is equal to both.
  cases ca : le c.element a.element with
  | false => exact .inl rfl
  | true =>
    have ba := trans _ _ _ bc.1 ca
    have cb := trans _ _ _ ca ab.1
    simp only [ba, cb, Bool.true_eq_false, false_or] at ab bc
    exact .inr (tieTrans a b c ab.2 bc.2)

/-- A head that precedes all others comes first of the merge. -/
theorem mergeAll_pop {le : α → α → Bool} {earlier later : List (List (Occurrence α))}
    {item : Occurrence α} {rest : List (Occurrence α)}
    (less : ∀ occurrences ∈ earlier, ∀ other ∈ occurrences, other.run < item.run)
    (greatest : ∀ other ∈ (earlier ++ later).filterMap List.head?, item.precedes le other = true) :
    mergeAll (fun a b => le a.element b.element) (earlier ++ (item :: rest) :: later)
      = item :: mergeAll (fun a b => le a.element b.element) (earlier ++ rest :: later) := by
  have precedes : ∀ occurrences ∈ earlier ++ later, ∀ other ∈ occurrences.head?,
      le item.element other.element = true
        ∧ (le other.element item.element = false ∨ item.run ≤ other.run) := by
    intro occurrences member other first
    simpa [Occurrence.precedes] using
      greatest other (List.mem_filterMap.mpr ⟨occurrences, member, first⟩)
  refine mergeAll_take ?_ ?_
  · intro occurrences member other first
    have before := less occurrences member other (List.mem_of_mem_head? first)
    exact (precedes occurrences (List.mem_append_left _ member) other first).2.resolve_right
      (by omega)
  · intro occurrences member other first
    exact (precedes occurrences (List.mem_append_right _ member) other first).1

/-- What comes out of a heap that pops any of its greatest items, until it is empty. -/
inductive Drains (compare : β → β → Except Failure Ordering) (runs : List (List β)) :
    Multiset (Occurrence β) → List (Occurrence β) → Prop
  | empty : Drains compare runs 0 []
  | pop {item : Occurrence β} {rest : Multiset (Occurrence β)} {popped : List (Occurrence β)}
      (greatest : ∀ other ∈ rest, item.heapCompare compare other ≠ .ok .lt)
      (later : Drains compare runs
        (((occurrence? runs item.run (item.position + 1)).toList : Multiset _) + rest) popped) :
      Drains compare runs (item ::ₘ rest) (item :: popped)

section Heap

variable {compare : β → β → Except Failure Ordering} {f : α → β} {le : α → α → Bool}

namespace Weighs

theorem lt_iff (weighs : Weighs compare f le) (x y : α) :
    compare (f x) (f y) = .ok .lt ↔ le y x = false := by
  obtain ⟨ordering, answer, iff⟩ := weighs.answers y x
  rw [weighs.swap y x ordering answer, Except.ok.injEq, ← Bool.not_eq_true, iff]
  cases ordering <;> decide

theorem total (weighs : Weighs compare f le) (x y : α) : (le x y || le y x) = true := by
  obtain ⟨ordering, answer, iff⟩ := weighs.answers x y
  have less := weighs.lt_iff x y
  rw [answer, Except.ok.injEq] at less
  rw [Bool.or_eq_true, iff, ← Bool.not_eq_false, ← less]
  cases ordering <;> decide

/-- The order of the heap is the reverse of that in which heads are merged. -/
theorem heap (weighs : Weighs compare f le) :
    Weighs (Occurrence.heapCompare compare) (Occurrence.map f) fun a b => b.precedes le a where
  answers a b := by
    obtain ⟨ordering, answer, iff⟩ := weighs.answers b.element a.element
    have less := weighs.lt_iff b.element a.element
    rw [answer, Except.ok.injEq] at less
    refine ⟨ordering.then (Ord.compare b.run a.run), ?_, ?_⟩
    · simp [Occurrence.heapCompare, Occurrence.map, answer, bind, Except.bind, pure, Except.pure]
    · simp only [Occurrence.precedes, Bool.and_eq_true, Bool.or_eq_true, Bool.not_eq_true',
        decide_eq_true_eq, ← less, iff]
      cases ordering <;> simp [Nat.compare_ne_gt]
  swap a b ordering answer := by
    obtain ⟨weight, weighed, _⟩ := weighs.answers b.element a.element
    obtain rfl : weight.then (Ord.compare b.run a.run) = ordering := by
      simpa [Occurrence.heapCompare, Occurrence.map, weighed, bind, Except.bind, pure, Except.pure]
        using answer
    have back := weighs.swap _ _ _ weighed
    simp [Occurrence.heapCompare, Occurrence.map, back, bind, Except.bind, pure, Except.pure,
      Ordering.swap_then, Nat.compare_swap]
  trans a b c ab bc :=
    Occurrence.tieBreak_trans weighs.trans (fun a b => a.run ≤ b.run)
      (fun _ _ _ => Nat.le_trans) c b a bc ab

end Weighs

/-- A heap that is not empty pops an item that no other one is above. -/
theorem popGreatest_eq (weighs : Weighs compare f le) (x : α) (xs : List α) :
    ∃ top rest, popGreatest compare ((x :: xs).map f) = .ok (some (f top, rest.map f)) ∧
      (x :: xs).Perm (top :: rest) ∧ ∀ y ∈ rest, le y top = true := by
  induction xs generalizing x with
  | nil => exact ⟨x, [], rfl, .refl _, by simp⟩
  | cons y ys ih =>
    obtain ⟨top, rest, popped, perm, greatest⟩ := ih y
    obtain ⟨ordering, answer, iff⟩ := weighs.answers x top
    have less := weighs.lt_iff x top
    rw [answer, Except.ok.injEq] at less
    rw [List.map_cons, popGreatest, popped]
    cases ordering with
    | lt =>
      refine ⟨top, x :: rest, ?_, (perm.cons x).trans (.swap ..), ?_⟩
      · simp [answer, bind, Except.bind, pure, Except.pure]
      · exact List.forall_mem_cons.mpr ⟨iff.mpr (by decide), greatest⟩
    | eq | gt =>
      have above : le top x = true := by
        rw [← Bool.not_eq_false, ← less]
        decide
      refine ⟨x, top :: rest, ?_, perm.cons x, ?_⟩
      · simp [answer, bind, Except.bind, pure, Except.pure]
      · exact List.forall_mem_cons.mpr ⟨above, fun z member =>
          weighs.trans z top x (greatest z member) above⟩

/-- Whatever a heap pops that holds the heads of what is left is the merge of what is left. -/
theorem Drains.eq_mergeAll (weighs : Weighs compare f le) {runs : List (List α)}
    {left : List (List (Occurrence α))} (isLeft : Left runs left) {heap : Multiset (Occurrence β)}
    {popped : List (Occurrence β)} (drains : Drains compare (runs.map (·.map f)) heap popped)
    (pending : heap = ((left.filterMap List.head?).map (Occurrence.map f) : List _)) :
    popped = (mergeAll (fun a b => le a.element b.element) left).map (Occurrence.map f) := by
  induction drains generalizing left with
  | empty =>
    have nothing : left.filterMap List.head? = [] := by simpa using pending.symm
    cases merged : mergeAll (fun a b => le a.element b.element) left with
    | nil => rfl
    | cons first _ =>
      obtain ⟨run, member, head⟩ := exists_head_mergeAll (x := first) (by rw [merged]; rfl)
      have isPending := List.mem_filterMap.mpr ⟨run, member, head⟩
      rw [nothing] at isPending
      cases isPending
  | @pop item rest popped greatest later ih =>
    have inHeap := Multiset.mem_cons_self item rest
    rw [pending, Multiset.mem_coe] at inHeap
    obtain ⟨item, isPending, rfl⟩ := List.mem_map.mp inHeap
    obtain ⟨earlier, tail, behind, rfl, tailLeft, next, less⟩ := isLeft.split isPending
    obtain rfl : rest
        = (((earlier ++ behind).filterMap List.head?).map (Occurrence.map f) : List _) := by
      have same := (heads_perm earlier behind (item :: tail)).map (Occurrence.map f)
      rw [← Multiset.coe_eq_coe, ← pending] at same
      exact (Multiset.cons_inj_right _).mp same
    rw [mergeAll_pop less ?_, List.map_cons, ← ih tailLeft ?_]
    · have same := (heads_perm earlier behind tail).map (Occurrence.map f)
      rw [← Multiset.coe_eq_coe] at same
      rw [same, List.map_append, ← Multiset.coe_add, ← Option.toList_map, ← next, ← occurrence?_map]
      rfl
    · intro other member
      have notLess := greatest (other.map f) (List.mem_map_of_mem member)
      rw [ne_eq, weighs.heap.lt_iff, Bool.not_eq_false] at notLess
      exact notLess

/-- A round pops an item that no other one is above. What is pending then are the heads of what is left
without it. -/
theorem Left.pops (weighs : Weighs compare f le) {runs : List (List α)}
    {left : List (List (Occurrence α))} (isLeft : Left runs left) {x : Occurrence α}
    {xs : List (Occurrence α)} (pending : (x :: xs).Perm (left.filterMap List.head?)) :
    ∃ item rest remaining,
      popGreatest (Occurrence.heapCompare compare) ((x :: xs).map (Occurrence.map f))
        = .ok (some (item.map f, rest.map (Occurrence.map f))) ∧
      (x :: xs).Perm (item :: rest) ∧ (∀ other ∈ rest, item.precedes le other = true) ∧
      Left runs remaining ∧ left.flatten.length = remaining.flatten.length + 1 ∧
      ((occurrence? runs item.run (item.position + 1)).toList ++ rest).Perm
        (remaining.filterMap List.head?) := by
  obtain ⟨item, rest, popped, perm, greatest⟩ := popGreatest_eq weighs.heap x xs
  have isPending := (perm.symm.trans pending).mem_iff.mp List.mem_cons_self
  obtain ⟨earlier, tail, later, rfl, tailLeft, next, _⟩ := isLeft.split isPending
  have others : rest.Perm ((earlier ++ later).filterMap List.head?) :=
    ((perm.symm.trans pending).trans (heads_perm earlier later (item :: tail))).cons_inv
  refine ⟨item, rest, earlier ++ tail :: later, popped, perm, greatest, tailLeft, ?_, ?_⟩
  · simp only [List.flatten_append, List.flatten_cons, List.length_append, List.length_cons]
    omega
  · rw [next]
    exact (others.append_left _).trans (heads_perm earlier later tail).symm

/-- With a round for each occurrence that is left, the loop empties the heap. -/
theorem exists_drains (weighs : Weighs compare f le) {runs : List (List α)} {rounds : Nat}
    {left : List (List (Occurrence α))} (isLeft : Left runs left) {heap : List (Occurrence α)}
    (pending : heap.Perm (left.filterMap List.head?)) (enough : left.flatten.length ≤ rounds) :
    ∃ popped, drain compare (runs.map (·.map f)) rounds (heap.map (Occurrence.map f))
        = .ok (popped.map (·.element)) ∧
      Drains compare (runs.map (·.map f)) (heap.map (Occurrence.map f) : List _) popped := by
  induction rounds generalizing left heap with
  | zero =>
    have nothing := List.eq_nil_of_length_eq_zero (Nat.le_zero.mp enough)
    have empty : heap = [] := by
      refine List.eq_nil_iff_forall_not_mem.mpr fun item member => ?_
      obtain ⟨run, inLeft, first⟩ := List.mem_filterMap.mp (pending.mem_iff.mp member)
      have inFlatten := List.mem_flatten.mpr ⟨run, inLeft, List.mem_of_mem_head? first⟩
      rw [nothing] at inFlatten
      cases inFlatten
    exact ⟨[], rfl, empty ▸ .empty⟩
  | succ rounds ih =>
    cases heap with
    | nil => exact ⟨[], rfl, .empty⟩
    | cons x xs =>
      obtain ⟨item, rest, remaining, popped, perm, greatest, nowLeft, fewer, nowPending⟩ :=
        isLeft.pops weighs pending
      obtain ⟨later, done, drains⟩ := ih nowLeft nowPending (by omega)
      have pushed : (occurrence? (runs.map (·.map f)) (item.map f).run
          ((item.map f).position + 1)).toList ++ rest.map (Occurrence.map f)
            = ((occurrence? runs item.run (item.position + 1)).toList ++ rest).map
              (Occurrence.map f) := by
        rw [occurrence?_map, List.map_append, Option.toList_map]
        rfl
      refine ⟨item.map f :: later, ?_, ?_⟩
      · rw [drain, popped]
        simp only [bind, Except.bind, pure, Except.pure, pushed, done, List.map_cons]
      · rw [Multiset.coe_eq_coe.mpr (perm.map (Occurrence.map f)), List.map_cons,
          ← Multiset.cons_coe]
        refine .pop ?_ ?_
        · intro other member
          obtain ⟨other, inRest, rfl⟩ := List.mem_map.mp member
          rw [ne_eq, weighs.heap.lt_iff, Bool.not_eq_false]
          exact greatest other inRest
        · rw [Multiset.coe_add, pushed]
          exact drains

theorem heads_map_eq (f : α → β) (runs : List (List α)) : heads (runs.map (·.map f))
    = ((Occurrence.inRuns 0 runs).filterMap List.head?).map (Occurrence.map f) := by
  rw [heads_map, heads_eq]

/-- What any heap pops that first holds the heads of all runs is the merge of the runs. -/
theorem drains_iff (weighs : Weighs compare f le) (runs : List (List α))
    {popped : List (Occurrence β)} :
    Drains compare (runs.map (·.map f)) (heads (runs.map (·.map f)) : List _) popped
      ↔ popped = (mergeAll (fun a b => le a.element b.element) (Occurrence.inRuns 0 runs)).map
          (Occurrence.map f) := by
  rw [heads_map_eq]
  constructor
  · intro drains
    exact drains.eq_mergeAll weighs (.all runs) rfl
  · rintro rfl
    obtain ⟨popped, _, drains⟩ := exists_drains weighs (.all runs) (.refl _) (Nat.le_refl _)
    rwa [← drains.eq_mergeAll weighs (.all runs) rfl]

/-- Merging runs of what elements stand for merges the elements. -/
theorem mergeRuns_eq (weighs : Weighs compare f le) (runs : List (List α)) :
    mergeRuns compare (runs.map (·.map f)) = .ok ((mergeAll le runs).map f) := by
  have enough : (Occurrence.inRuns 0 runs).flatten.length ≤ (runs.map (·.map f)).flatten.length := by
    rw [Occurrence.length_inRuns, ← List.map_flatten, List.length_map]
  obtain ⟨popped, done, drains⟩ := exists_drains weighs (.all runs) (.refl _) enough
  have elements := map_mergeAll Occurrence.element le (Occurrence.inRuns 0 runs)
  rw [Occurrence.map_inRuns] at elements
  rw [mergeRuns, heads_map_eq, done, drains.eq_mergeAll weighs (.all runs) rfl, ← elements,
    List.map_map, List.map_map]
  rfl

end Heap

end WriteBuffer
