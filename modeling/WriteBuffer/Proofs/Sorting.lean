import Mathlib
import WriteBuffer.Proofs.Storage
import WriteBuffer.Sorting

/-!
Sorts whose comparisons may fail and may tie. A sort that comes to an end has only rearranged the
elements (`sortStable_perm`). It does so if every two elements can be compared (`sortStable_ok`) or there
is at most one (`sortStable_few`). Otherwise every element takes part in a comparison, so a sort of two or
more breaks off at an element that nothing can be compared with (`sortStable_comparable`).
-/
namespace WriteBuffer

variable {α : Type} {compare : α → α → Except Failure Ordering} {comparable : α → Prop} {x : α}
  {sorted xs ys : List α}

theorem insertDescending_perm (done : insertDescending compare x xs = .ok ys) : ys.Perm (x :: xs) := by
  induction xs generalizing ys with
  | nil =>
    obtain rfl := Except.ok.inj done
    exact .refl _
  | cons y rest ih =>
    obtain ⟨ordering, _, done⟩ := bind_eq_ok.mp done
    cases ordering with
    | lt =>
      obtain ⟨longer, inserted, done⟩ := bind_eq_ok.mp done
      obtain rfl := Except.ok.inj done
      exact ((ih inserted).cons y).trans (.swap ..)
    | eq | gt =>
      obtain rfl := Except.ok.inj done
      exact .refl _

theorem insertDescending_ok (answers : ∀ y ∈ xs, ∃ ordering, compare x y = .ok ordering) :
    ∃ longer, insertDescending compare x xs = .ok longer := by
  induction xs with
  | nil => exact ⟨[x], rfl⟩
  | cons y rest ih =>
    obtain ⟨ordering, answer⟩ := answers y List.mem_cons_self
    cases ordering with
    | lt =>
      obtain ⟨longer, inserted⟩ := ih fun z member => answers z (List.mem_cons_of_mem _ member)
      exact ⟨y :: longer, bind_eq_ok.mpr ⟨.lt, answer, bind_eq_ok.mpr ⟨longer, inserted, rfl⟩⟩⟩
    | eq => exact ⟨x :: y :: rest, bind_eq_ok.mpr ⟨.eq, answer, rfl⟩⟩
    | gt => exact ⟨x :: y :: rest, bind_eq_ok.mpr ⟨.gt, answer, rfl⟩⟩

theorem sortDescending_perm (done : sortDescending compare sorted xs = .ok ys) :
    ys.Perm (sorted ++ xs) := by
  induction xs generalizing sorted with
  | nil =>
    obtain rfl := Except.ok.inj done
    rw [List.append_nil]
  | cons x rest ih =>
    obtain ⟨longer, inserted, done⟩ := bind_eq_ok.mp done
    have taken : (longer ++ rest).Perm (x :: sorted ++ rest) :=
      (insertDescending_perm inserted).append_right rest
    exact ((ih done).trans taken).trans List.perm_middle.symm

theorem sortDescending_ok
    (answers : ∀ x ∈ sorted ++ xs, ∀ y ∈ sorted ++ xs, ∃ ordering, compare x y = .ok ordering) :
    ∃ longer, sortDescending compare sorted xs = .ok longer := by
  induction xs generalizing sorted with
  | nil => exact ⟨sorted, rfl⟩
  | cons x rest ih =>
    obtain ⟨longer, inserted⟩ : ∃ longer, insertDescending compare x sorted = .ok longer :=
      insertDescending_ok fun y member => answers x (by simp) y (List.mem_append_left _ member)
    have perm : (longer ++ rest).Perm (sorted ++ x :: rest) :=
      ((insertDescending_perm inserted).append_right rest).trans List.perm_middle.symm
    obtain ⟨all, done⟩ := ih fun a memberA b memberB =>
      answers a (perm.mem_iff.mp memberA) b (perm.mem_iff.mp memberB)
    exact ⟨all, bind_eq_ok.mpr ⟨longer, inserted, done⟩⟩

/-- Each element that is put into a list which is not empty is compared with its first one. -/
theorem sortDescending_comparable
    (answers : ∀ {x y ordering}, compare x y = .ok ordering → comparable x ∧ comparable y)
    (before : 2 ≤ sorted.length → ∀ x ∈ sorted, comparable x)
    (done : sortDescending compare sorted xs = .ok ys) (several : 2 ≤ (sorted ++ xs).length) :
    ∀ x ∈ sorted ++ xs, comparable x := by
  induction xs generalizing sorted with
  | nil =>
    rw [List.append_nil] at several ⊢
    exact before several
  | cons x rest ih =>
    obtain ⟨longer, inserted, done⟩ := bind_eq_ok.mp done
    have perm := insertDescending_perm inserted
    have all : (longer ++ rest).Perm (sorted ++ x :: rest) :=
      (perm.append_right rest).trans List.perm_middle.symm
    have now : 2 ≤ longer.length → ∀ x ∈ longer, comparable x := by
      intro two
      cases sorted with
      | nil => simp [perm.length_eq] at two
      | cons y others =>
        obtain ⟨ordering, answer, _⟩ := bind_eq_ok.mp inserted
        obtain ⟨first, second⟩ := answers answer
        have otherwise : ∀ z ∈ y :: others, comparable z := by
          cases others with
          | nil => exact List.forall_mem_singleton.mpr second
          | cons z more => exact before (by simp)
        intro z member
        exact List.forall_mem_cons.mpr ⟨first, otherwise⟩ z (perm.mem_iff.mp member)
    intro z member
    exact ih now done (all.length_eq ▸ several) z (all.mem_iff.mpr member)

theorem sortStable_eq_ok : sortStable compare xs = .ok ys ↔
    ∃ descending, sortDescending compare [] xs = .ok descending ∧ descending.reverse = ys := by
  rw [sortStable]
  cases sortDescending compare [] xs <;> simp [Except.map]

/-- A sort that comes to an end has only rearranged the elements. -/
theorem sortStable_perm (done : sortStable compare xs = .ok ys) : ys.Perm xs := by
  obtain ⟨descending, inserted, rfl⟩ := sortStable_eq_ok.mp done
  exact (List.reverse_perm _).trans (sortDescending_perm inserted)

/-- A sort comes to an end if every two elements can be compared. -/
theorem sortStable_ok (answers : ∀ x ∈ xs, ∀ y ∈ xs, ∃ ordering, compare x y = .ok ordering) :
    ∃ sorted, sortStable compare xs = .ok sorted := by
  obtain ⟨descending, done⟩ : ∃ descending, sortDescending compare [] xs = .ok descending :=
    sortDescending_ok answers
  exact ⟨_, sortStable_eq_ok.mpr ⟨descending, done, rfl⟩⟩

/-- A sort of at most one element compares nothing. -/
theorem sortStable_few (few : xs.length < 2) : sortStable compare xs = .ok xs := by
  match xs with
  | [] | [_] => rfl

/-- A sort of two or more elements comes to an end only if all of them can be compared. -/
theorem sortStable_comparable
    (answers : ∀ {x y ordering}, compare x y = .ok ordering → comparable x ∧ comparable y)
    (done : sortStable compare xs = .ok ys) (several : 2 ≤ xs.length) : ∀ x ∈ xs, comparable x := by
  obtain ⟨descending, inserted, rfl⟩ := sortStable_eq_ok.mp done
  have nothing : 2 ≤ ([] : List α).length → ∀ x ∈ [], comparable x := fun _ _ member => nomatch member
  exact @sortDescending_comparable α compare comparable [] xs descending answers nothing inserted
    several

end WriteBuffer
