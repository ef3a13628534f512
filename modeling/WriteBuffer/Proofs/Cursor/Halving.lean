import Mathlib
import WriteBuffer.Cursor.Run
import WriteBuffer.Proofs.Cursor.Following
import WriteBuffer.Proofs.Rows

/-!
Search by halving. On a list that a probe splits into elements below and above, halving ends next to
the split (`halve_split`), so a cursor over a run of handles follows the entries they name
(`RunCursor.follows`).
-/
namespace WriteBuffer

variable {α : Type}

/-- Halving keeps the split between its base and the end of its window. -/
theorem halve_split {probe : α → Except Failure Ordering} {front back : List α}
    (notAbove : ∀ x ∈ front, ∃ ordering, probe x = .ok ordering ∧ ordering ≠ .gt)
    (above : ∀ x ∈ back, probe x = .ok .gt)
    (fuel base size : Nat) (enough : size ≤ fuel + 1) (positive : 0 < size)
    (window : base + size ≤ (front ++ back).length) (low : base = 0 ∨ base < front.length)
    (high : front.length ≤ base + size) :
    ∃ place, halve probe (front ++ back) fuel base size = .ok place ∧
      place < (front ++ back).length ∧ (place = 0 ∨ place < front.length) ∧
      front.length ≤ place + 1 := by
  induction fuel generalizing base size with
  | zero => exact ⟨base, rfl, by omega, low, by omega⟩
  | succ fuel ih =>
    by_cases single : size ≤ 1
    · exact ⟨base, by simp [halve, single], by omega, low, by omega⟩
    · have within : base + size / 2 < (front ++ back).length := by omega
      simp only [halve, single, if_false, List.getElem?_eq_getElem within]
      by_cases inFront : base + size / 2 < front.length
      · obtain ⟨ordering, probed, notGreater⟩ := notAbove _ (List.getElem_mem inFront)
        have same : (front ++ back)[base + size / 2] = front[base + size / 2] :=
          List.getElem_append_left inFront
        rw [← same] at probed
        have upper := ih (base + size / 2) (size - size / 2) (by omega) (by omega) (by omega)
          (.inr inFront) (by omega)
        cases ordering with
        | gt => exact absurd rfl notGreater
        | lt | eq => simpa only [probed, bind, Except.bind] using upper
      · have probed : probe (front ++ back)[base + size / 2] = .ok .gt := by
          rw [List.getElem_append_right (by omega)]
          exact above _ (List.getElem_mem _)
        simp only [probed, bind, Except.bind]
        exact ih _ _ (by omega) (by omega) (by omega) low (by omega)

/-- A search for what stands nowhere ends where it would stand. -/
theorem binarySearch_split {probe : α → Except Failure Ordering} {front back : List α}
    (below : ∀ x ∈ front, probe x = .ok .lt) (above : ∀ x ∈ back, probe x = .ok .gt) :
    binarySearch probe (front ++ back) = .ok (false, front.length) := by
  rw [binarySearch.eq_def]
  split
  · next empty =>
    obtain ⟨rfl, rfl⟩ := List.append_eq_nil_iff.mp empty
    rfl
  · next first rest parts =>
    have size : (front ++ back).length = rest.length + 1 := by rw [parts, List.length_cons]
    have part : front.length ≤ (front ++ back).length := by simp
    obtain ⟨place, found, within, low, high⟩ := halve_split
      (fun x member => ⟨.lt, below x member, by decide⟩) above (front ++ back).length 0
      (front ++ back).length (by omega) (by omega) (by omega) (.inl rfl) (by omega)
    by_cases inFront : place < front.length
    · have probed : probe (front ++ back)[place] = .ok .lt := by
        rw [List.getElem_append_left inFront]
        exact below _ (List.getElem_mem inFront)
      have last : place + 1 = front.length := by omega
      simp only [found, bind, Except.bind, List.getElem?_eq_getElem within, probed, pure,
        Except.pure, last]
    · have probed : probe (front ++ back)[place] = .ok .gt := by
        rw [List.getElem_append_right (by omega)]
        exact above _ (List.getElem_mem _)
      have first : place = front.length := by omega
      subst first
      simp only [found, bind, Except.bind, List.getElem?_eq_getElem within, probed, pure,
        Except.pure]

/-- A search for what stands in one place finds it there. -/
theorem binarySearch_found {probe : α → Except Failure Ordering} {front back : List α} {x : α}
    (below : ∀ y ∈ front, probe y = .ok .lt) (equal : probe x = .ok .eq)
    (above : ∀ y ∈ back, probe y = .ok .gt) :
    binarySearch probe (front ++ x :: back) = .ok (true, front.length) := by
  have parts : front ++ x :: back = (front ++ [x]) ++ back := by simp
  have reached : ∀ y ∈ front ++ [x], ∃ order, probe y = .ok order ∧ order ≠ .gt := by
    intro y member
    rcases List.mem_append.mp member with inFront | isHere
    · exact ⟨.lt, below y inFront, by decide⟩
    · exact ⟨.eq, List.mem_singleton.mp isHere ▸ equal, by decide⟩
  obtain ⟨place, found, within, low, high⟩ := halve_split reached above
    (front ++ x :: back).length 0 (front ++ x :: back).length (by omega) (by simp)
    (by simp) (.inl rfl) (by simp)
  rw [← parts] at found within
  have here : place = front.length := by
    simp only [List.length_append, List.length_singleton] at low high
    omega
  subst here
  rw [binarySearch.eq_def]
  split
  · next empty => simp at empty
  · simp only [found, bind, Except.bind, List.getElem?_append_right (Nat.le_refl _), Nat.sub_self,
      List.getElem?_cons_zero, equal, pure, Except.pure]

theorem partitionPoint_split {below : α → Except Failure Bool} {front back : List α}
    (yes : ∀ x ∈ front, below x = .ok true) (no : ∀ x ∈ back, below x = .ok false) :
    partitionPoint below (front ++ back) = .ok front.length := by
  rw [partitionPoint, binarySearch_split]
  · rfl
  · intro x member
    rw [yes x member]
    rfl
  · intro x member
    rw [no x member]
    rfl

theorem halve_fails {probe : α → Except Failure Ordering} {failure : Failure} {xs : List α}
    (fails : ∀ x ∈ xs, probe x = .error failure) {fuel size : Nat} (several : 1 < size)
    (window : size ≤ xs.length) : halve probe xs (fuel + 1) 0 size = .error failure := by
  have within : 0 + size / 2 < xs.length := by omega
  rw [halve, if_neg (Nat.not_le.mpr several)]
  simp only [List.getElem?_eq_getElem within, fails _ (List.getElem_mem within), bind, Except.bind]

/-- Where every probe fails, so does the search, unless there is nothing to probe. -/
theorem binarySearch_fails {probe : α → Except Failure Ordering} {failure : Failure} {xs : List α}
    (filled : xs ≠ []) (fails : ∀ x ∈ xs, probe x = .error failure) :
    binarySearch probe xs = .error failure := by
  obtain ⟨first, rest, rfl⟩ := List.exists_cons_of_ne_nil filled
  by_cases several : 1 < (first :: rest).length
  · have halved : halve probe (first :: rest) (first :: rest).length 0 (first :: rest).length
        = .error failure := halve_fails fails several (Nat.le_refl _)
    simp only [binarySearch, halved, bind, Except.bind]
  · -- A single element is left to the last probe.
    obtain rfl : rest = [] := by simpa using several
    simp [binarySearch, halve, fails first, bind, Except.bind]

theorem partitionPoint_fails {below : α → Except Failure Bool} {failure : Failure} {xs : List α}
    (filled : xs ≠ []) (fails : ∀ x ∈ xs, below x = .error failure) :
    partitionPoint below xs = .error failure := by
  rw [partitionPoint, binarySearch_fails filled]
  · rfl
  · intro x member
    rw [fails x member]
    rfl

/-- Halving needs no more than that its probes answer. -/
theorem halve_ok {probe : α → Except Failure Ordering} {xs : List α}
    (answers : ∀ x ∈ xs, ∃ ordering, probe x = .ok ordering) (fuel base size : Nat)
    (positive : 0 < size) (window : base + size ≤ xs.length) :
    ∃ place, halve probe xs fuel base size = .ok place ∧ place < xs.length := by
  induction fuel generalizing base size with
  | zero => exact ⟨base, rfl, by omega⟩
  | succ fuel ih =>
    by_cases single : size ≤ 1
    · exact ⟨base, by simp [halve, single], by omega⟩
    · have within : base + size / 2 < xs.length := by omega
      obtain ⟨ordering, probed⟩ := answers _ (List.getElem_mem within)
      have lower := ih base (size - size / 2) (by omega) (by omega)
      have upper := ih (base + size / 2) (size - size / 2) (by omega) (by omega)
      simp only [halve, single, if_false, List.getElem?_eq_getElem within, probed, bind, Except.bind]
      cases ordering with
      | gt => exact lower
      | lt | eq => exact upper

theorem binarySearch_ok {probe : α → Except Failure Ordering} {xs : List α}
    (answers : ∀ x ∈ xs, ∃ ordering, probe x = .ok ordering) :
    ∃ found, binarySearch probe xs = .ok found := by
  cases xs with
  | nil => exact ⟨_, rfl⟩
  | cons first rest =>
    obtain ⟨place, halved, within⟩ :=
      halve_ok answers (first :: rest).length 0 _ (by simp) (Nat.le_of_eq (Nat.zero_add _))
    obtain ⟨ordering, probed⟩ := answers _ (List.getElem_mem within)
    simp only [binarySearch, halved, bind, Except.bind, List.getElem?_eq_getElem within, probed]
    cases ordering <;> exact ⟨_, rfl⟩

theorem partitionPoint_ok {below : α → Except Failure Bool} {xs : List α}
    (answers : ∀ x ∈ xs, ∃ isBelow, below x = .ok isBelow) :
    ∃ point, partitionPoint below xs = .ok point := by
  have probes : ∀ x ∈ xs, ∃ ordering,
      (do return if ← below x then Ordering.lt else .gt : Except Failure Ordering)
        = .ok ordering := by
    intro x member
    obtain ⟨isBelow, answer⟩ := answers x member
    exact ⟨_, by rw [answer]; rfl⟩
  obtain ⟨found, searched⟩ := binarySearch_ok probes
  exact ⟨found.2, by rw [partitionPoint, searched]; rfl⟩

namespace RunCursor

/-- A cursor over handles follows the entries that the handles name. -/
theorem follows {shelf : Shelf} {handles : List Handle} {entries : List Bytes}
    (reads : shelf.Reads handles entries) :
    (moves shelf).Follows shelf.order entries fun position => { handles, position } where
  invalid := rfl
  valid _ := rfl
  entry := by
    intro index entry found
    have read := reads.getElem? index
    rw [found] at read
    obtain ⟨handle, named, read⟩ := Option.map_eq_some_iff.mp read
    simp only [moves, atPlace, named, read]
  next := by
    intro index _
    simp only [moves, atPlace, goTo, inside, reads.length_eq]
  prev _ := rfl
  span _ := Nat.le_of_eq reads.length_eq.symm
  first _ := by simp only [moves, goTo, inside, reads.length_eq]
  last _ := by simp only [moves, goTo, inside, reads.length_eq]
  seek := by
    intro at? target front back parts split
    subst parts
    obtain ⟨first, rest, rfl, readFirst, _, below, notBelow⟩ := reads.split split
    simp only [moves, partitionPoint_split below notBelow, bind, Except.bind, pure, Except.pure,
      goTo, inside, reads.length_eq, readFirst.length_eq]
  unread := rfl
  stops := ⟨rfl, rfl⟩
  refuses := by
    intro at? target failure filled fails
    obtain ⟨some, refused⟩ := reads.refuses filled fails
    simp only [moves, partitionPoint_fails some refused, bind, Except.bind]

end RunCursor

end WriteBuffer
