import Mathlib
import WriteBuffer.Cursor.Moves
import WriteBuffer.Proofs.EntryOrder

/-!
Cursors that behave like an index into a list of entries. Whatever they move along, cursors follow a
list if they step through it and find in it what is sought (`Moves.Follows`); then a walk shows the
rest of the list (`Moves.Steps.walkForward`, `Moves.Steps.walkBackward`), and a visitor sees an
initial part of what a walk would show (`Moves.Follows.visitFrom`).
-/
namespace WriteBuffer

/-- An index if it is one of a list. -/
def inside (entries : List Bytes) (index : Nat) : Option Nat :=
  if index < entries.length then some index else none

/-- What a visitor has seen after it was shown the entries of a list, up to the one at which it
stopped. -/
def seen (goesOn : List Bytes → Bool) : (shown entries : List Bytes) → List Bytes
  | shown, [] => shown
  | shown, entry :: rest =>
    if goesOn (shown ++ [entry]) then seen goesOn (shown ++ [entry]) rest else shown ++ [entry]

theorem seen_of_always {goesOn : List Bytes → Bool} (always : ∀ shown, goesOn shown = true)
    (shown entries : List Bytes) : seen goesOn shown entries = shown ++ entries := by
  induction entries generalizing shown with
  | nil => simp [seen]
  | cons entry rest ih => simp [seen, always, ih]

/-- A visitor that stops when it is shown its `count`-th entry sees the first `count`. -/
theorem seen_eq_take {goesOn : List Bytes → Bool} {count : Nat} {shown entries : List Bytes}
    (positive : 0 < count)
    (before : ∀ n, 0 < n → n < count → goesOn (shown ++ entries.take n) = true)
    (stops : count ≤ entries.length → goesOn (shown ++ entries.take count) = false) :
    seen goesOn shown entries = shown ++ entries.take count := by
  induction entries generalizing shown count with
  | nil => simp [seen]
  | cons entry rest ih =>
    obtain ⟨count, rfl⟩ : ∃ less, count = less + 1 := ⟨count - 1, by omega⟩
    by_cases single : count = 0
    · have stopped := stops (by simp [single])
      simp only [single, List.take_succ_cons, List.take_zero] at stopped ⊢
      simp [seen, stopped]
    · have goes := before 1 (by omega) (by omega)
      simp only [List.take_succ_cons, List.take_zero] at goes
      simp only [seen, goes, if_true]
      rw [ih (show 0 < count by omega)]
      · simp
      · intro n positive less
        simpa using before (n + 1) (by omega) (by omega)
      · intro within
        simpa using stops (by simpa using within)

namespace Moves

variable {ι κ : Type}

/-- The cursor after movements, of which those that fail leave it where it is. -/
def travel (moves : Moves ι) (motions : List Motion) (cursor : ι) : ι :=
  motions.foldl (fun cursor motion => (moves.move motion cursor).toOption.getD cursor) cursor

/-- Moves step through a list of entries: there is a cursor at each index, and one at no entry. -/
structure Steps (moves : Moves ι) (entries : List Bytes) (place : Option Nat → ι) : Prop where
  invalid : moves.valid (place none) = false
  valid : ∀ {index}, index < entries.length → moves.valid (place (some index)) = true
  entry : ∀ {index entry}, entries[index]? = some entry →
    moves.entry (place (some index)) = .ok entry
  next : ∀ {index}, index < entries.length →
    moves.next (place (some index)) = .ok (place (inside entries (index + 1)))
  prev : ∀ {index}, index < entries.length →
    moves.prev (place (some index)) = .ok (place (if index = 0 then none else some (index - 1)))
  span : ∀ {index}, index < entries.length → entries.length ≤ moves.span (place (some index))

/-- At no entry there is nothing to step on or back from. -/
def Stops (moves : Moves ι) (cursor : ι) : Prop :=
  moves.next cursor = .error .unpositioned ∧ moves.prev cursor = .error .unpositioned

/-- Moves follow a list of entries: they step through it and find its ends and what is sought. At no
entry there is nothing to read or to step from, and a target that the order cannot compare with the
entries is not sought for. -/
structure Follows (moves : Moves ι) (order : KeyOrder) (entries : List Bytes)
    (place : Option Nat → ι) : Prop extends Steps moves entries place where
  first : ∀ at?, moves.first (place at?) = .ok (place (inside entries 0))
  last : ∀ at?, moves.last (place at?) = .ok (place (inside entries (entries.length - 1)))
  seek : ∀ at? {target front back}, entries = front ++ back → order.Splits target front back →
    moves.seek target (place at?) = .ok (place (inside entries front.length))
  unread : moves.entry (place none) = .error .unpositioned
  stops : moves.Stops (place none)
  refuses : ∀ at? {target failure}, entries ≠ [] →
    (∀ entry ∈ entries, order.compareEntryKey entry target = .error failure) →
      moves.seek target (place at?) = .error failure

/-- Cursors of one kind are wrapped into those of another, which moves them and nothing else. -/
structure Carries (outer : Moves κ) (inner : Moves ι) (wrap : ι → κ) : Prop where
  valid : ∀ cursor, outer.valid (wrap cursor) = inner.valid cursor
  entry : ∀ cursor, outer.entry (wrap cursor) = inner.entry cursor
  next : ∀ cursor, outer.next (wrap cursor) = (inner.next cursor).map wrap
  prev : ∀ cursor, outer.prev (wrap cursor) = (inner.prev cursor).map wrap
  seek : ∀ target cursor, outer.seek target (wrap cursor) = (inner.seek target cursor).map wrap
  first : ∀ cursor, outer.first (wrap cursor) = (inner.first cursor).map wrap
  last : ∀ cursor, outer.last (wrap cursor) = (inner.last cursor).map wrap
  span : ∀ cursor, outer.span (wrap cursor) = inner.span cursor

variable {moves inner : Moves ι} {outer : Moves κ} {order : KeyOrder} {entries : List Bytes}
  {place : Option Nat → ι} {wrap : ι → κ}

theorem Carries.move (carries : outer.Carries inner wrap) (motion : Motion) (cursor : ι) :
    outer.move motion (wrap cursor) = (inner.move motion cursor).map wrap := by
  cases motion with
  | next => exact carries.next cursor
  | prev => exact carries.prev cursor
  | seek target => exact carries.seek target cursor
  | first => exact carries.first cursor
  | last => exact carries.last cursor

theorem Carries.travel (carries : outer.Carries inner wrap) (motions : List Motion) (cursor : ι) :
    outer.travel motions (wrap cursor) = wrap (inner.travel motions cursor) := by
  induction motions generalizing cursor with
  | nil => rfl
  | cons motion rest ih =>
    have first : (outer.move motion (wrap cursor)).toOption.getD (wrap cursor)
        = wrap ((inner.move motion cursor).toOption.getD cursor) := by
      rw [carries.move]
      cases inner.move motion cursor <;> rfl
    simp only [Moves.travel, List.foldl_cons] at ih ⊢
    rw [first]
    exact ih _

theorem Steps.carried (steps : inner.Steps entries place) (carries : outer.Carries inner wrap) :
    outer.Steps entries (fun at? => wrap (place at?)) where
  invalid := by rw [carries.valid, steps.invalid]
  valid within := by rw [carries.valid, steps.valid within]
  entry found := by rw [carries.entry, steps.entry found]
  next within := by rw [carries.next, steps.next within]; rfl
  prev within := by rw [carries.prev, steps.prev within]; rfl
  span within := by rw [carries.span]; exact steps.span within

theorem Follows.carried (follows : inner.Follows order entries place)
    (carries : outer.Carries inner wrap) :
    outer.Follows order entries (fun at? => wrap (place at?)) where
  toSteps := follows.toSteps.carried carries
  first at? := by rw [carries.first, follows.first]; rfl
  last at? := by rw [carries.last, follows.last]; rfl
  seek at? _ _ _ parts split := by rw [carries.seek, follows.seek at? parts split]; rfl
  unread := by rw [carries.entry, follows.unread]
  stops := by
    refine ⟨?_, ?_⟩
    · rw [carries.next, follows.stops.1]
      rfl
    · rw [carries.prev, follows.stops.2]
      rfl
  refuses at? _ _ filled fails := by rw [carries.seek, follows.refuses at? filled fails]; rfl

/-- Wrapped cursors meet the same entries on a walk. -/
theorem Carries.walk (carries : outer.Carries inner wrap) {step : ι → Except Failure ι}
    {wrapped : κ → Except Failure κ}
    (same : ∀ cursor, wrapped (wrap cursor) = (step cursor).map wrap) (bound : Nat) (cursor : ι) :
    (outer.walk wrapped bound (wrap cursor)).2 = (inner.walk step bound cursor).2 := by
  induction bound generalizing cursor with
  | zero => simp only [Moves.walk, carries.valid]
  | succ bound ih =>
    simp only [Moves.walk, carries.valid, carries.entry, same]
    split
    · cases inner.entry cursor with
      | error failure => rfl
      | ok entry =>
        cases step cursor with
        | error failure => rfl
        | ok further =>
          simp only [Except.map]
          rw [ih further]
    · rfl

theorem Carries.walkForward (carries : outer.Carries inner wrap) (cursor : ι) :
    (outer.walkForward (wrap cursor)).2 = (inner.walkForward cursor).2 := by
  rw [Moves.walkForward, carries.span, carries.walk carries.next, Moves.walkForward]

theorem Carries.walkBackward (carries : outer.Carries inner wrap) (cursor : ι) :
    (outer.walkBackward (wrap cursor)).2 = (inner.walkBackward cursor).2 := by
  rw [Moves.walkBackward, carries.span, carries.walk carries.prev, Moves.walkBackward]

theorem Carries.visit (carries : outer.Carries inner wrap) (goesOn : List Bytes → Bool)
    (bound : Nat) (shown : List Bytes) (cursor : ι) :
    outer.visit goesOn bound shown (wrap cursor) = inner.visit goesOn bound shown cursor := by
  induction bound generalizing shown cursor with
  | zero => simp only [Moves.visit, carries.valid]
  | succ bound ih =>
    simp only [Moves.visit, carries.valid, carries.entry, carries.next]
    cases inner.next cursor with
    | error failure => rfl
    | ok further =>
      simp only [Except.map, bind, Except.bind, ih]

/-- A visitor is shown the same entries from a wrapped cursor. -/
theorem Carries.visitFrom (carries : outer.Carries inner wrap) (cursor : ι) (target : Bytes)
    (goesOn : List Bytes → Bool) :
    outer.visitFrom (wrap cursor) target goesOn = inner.visitFrom cursor target goesOn := by
  simp only [Moves.visitFrom, carries.seek]
  cases inner.seek target cursor with
  | error failure => rfl
  | ok start =>
    simp only [Except.map, bind, Except.bind]
    rw [carries.span, carries.visit]

theorem walk_invalid {cursor : ι} (invalid : moves.valid cursor = false)
    (step : ι → Except Failure ι) (bound : Nat) :
    moves.walk step bound cursor = (cursor, .ok []) := by
  cases bound <;> simp [walk, invalid]

/-- Walking on shows the rest of the list and ends at no entry. -/
theorem Steps.walk_next (steps : moves.Steps entries place) {bound index : Nat}
    (enough : entries.length - index ≤ bound) :
    moves.walk moves.next bound (place (inside entries index))
      = (place none, .ok (entries.drop index)) := by
  induction bound generalizing index with
  | zero =>
    have outside : ¬ index < entries.length := by omega
    simp [walk, inside, outside, steps.invalid, List.drop_eq_nil_of_le (Nat.le_of_not_lt outside)]
  | succ bound ih =>
    by_cases within : index < entries.length
    · simp only [walk, inside, within, if_true, steps.valid within,
        steps.entry (List.getElem?_eq_getElem within), steps.next within]
      rw [show (if index + 1 < entries.length then some (index + 1) else none)
        = inside entries (index + 1) from rfl, ih (by omega)]
      simp [Except.map]
    · simp [walk, inside, within, steps.invalid, List.drop_eq_nil_of_le (Nat.le_of_not_lt within)]

theorem Steps.walk_prev (steps : moves.Steps entries place) {bound index : Nat}
    (within : index < entries.length) (enough : index < bound) :
    moves.walk moves.prev bound (place (some index))
      = (place none, .ok (entries.take (index + 1)).reverse) := by
  induction bound generalizing index with
  | zero => omega
  | succ bound ih =>
    simp only [walk, steps.valid within, if_true, steps.entry (List.getElem?_eq_getElem within),
      steps.prev within]
    rw [List.take_succ_eq_append_getElem within, List.reverse_append]
    by_cases start : index = 0
    · subst start
      cases bound <;> simp [walk, steps.invalid, Except.map]
    · rw [if_neg start, ih (by omega) (by omega), Nat.sub_add_cancel (by omega)]
      rfl

theorem Steps.walkForward (steps : moves.Steps entries place) (index : Nat) :
    moves.walkForward (place (inside entries index)) = (place none, .ok (entries.drop index)) := by
  by_cases within : index < entries.length
  · refine steps.walk_next (Nat.le_trans (Nat.sub_le ..) ?_)
    rw [inside, if_pos within]
    exact steps.span within
  · rw [inside, if_neg within, List.drop_eq_nil_of_le (Nat.le_of_not_lt within)]
    exact walk_invalid steps.invalid ..

theorem Steps.walkBackward (steps : moves.Steps entries place) {index : Nat}
    (within : index < entries.length) :
    moves.walkBackward (place (some index))
      = (place none, .ok (entries.take (index + 1)).reverse) :=
  steps.walk_prev within (Nat.lt_of_lt_of_le within (steps.span within))

theorem Follows.walk_first (follows : moves.Follows order entries place) (at? : Option Nat) :
    ∃ start, moves.first (place at?) = .ok start ∧
      moves.walkForward start = (place none, .ok entries) :=
  ⟨_, follows.first at?, follows.walkForward 0⟩

theorem Follows.walk_last (follows : moves.Follows order entries place) (at? : Option Nat) :
    ∃ start, moves.last (place at?) = .ok start ∧
      moves.walkBackward start = (place none, .ok entries.reverse) := by
  refine ⟨_, follows.last at?, ?_⟩
  by_cases empty : entries.length = 0
  · have none : inside entries (entries.length - 1) = none := by simp [inside, empty]
    rw [none, List.length_eq_zero_iff.mp empty]
    exact walk_invalid follows.invalid ..
  · have within : entries.length - 1 < entries.length := by omega
    rw [inside, if_pos within, follows.walkBackward within, Nat.sub_add_cancel (by omega),
      List.take_length]

theorem Steps.visit (steps : moves.Steps entries place) (goesOn : List Bytes → Bool)
    {bound index : Nat} {shown : List Bytes} (enough : entries.length - index ≤ bound) :
    moves.visit goesOn bound shown (place (inside entries index))
      = .ok (seen goesOn shown (entries.drop index)) := by
  induction bound generalizing index shown with
  | zero =>
    have outside : ¬ index < entries.length := by omega
    simp [Moves.visit, inside, outside, steps.invalid, seen,
      List.drop_eq_nil_of_le (Nat.le_of_not_lt outside)]
  | succ bound ih =>
    by_cases within : index < entries.length
    · rw [List.drop_eq_getElem_cons within]
      simp only [Moves.visit, inside, within, if_true, steps.valid within,
        steps.entry (List.getElem?_eq_getElem within), steps.next within, seen, bind, Except.bind,
        pure, Except.pure]
      split
      · exact ih (by omega)
      · rfl
    · simp [Moves.visit, inside, within, steps.invalid, seen,
        List.drop_eq_nil_of_le (Nat.le_of_not_lt within)]

/-- A visitor is shown the entries that are not below the target. -/
theorem Follows.visitFrom (follows : moves.Follows order entries place) (at? : Option Nat)
    {target : Bytes} {front back : List Bytes} (parts : entries = front ++ back)
    (split : order.Splits target front back) (goesOn : List Bytes → Bool) :
    moves.visitFrom (place at?) target goesOn = .ok (seen goesOn [] back) := by
  have rest : entries.drop front.length = back := by rw [parts, List.drop_left]
  simp only [Moves.visitFrom, follows.seek at? parts split, bind, Except.bind]
  rw [follows.visit goesOn ?_, rest]
  by_cases within : front.length < entries.length
  · rw [inside, if_pos within]
    exact Nat.le_trans (Nat.sub_le ..) (follows.span within)
  · omega

theorem ofNothing_follows (order : KeyOrder) : ofNothing.Follows order [] fun _ => () where
  invalid := rfl
  valid within := absurd within (Nat.not_lt_zero _)
  entry found := by simp at found
  next within := absurd within (Nat.not_lt_zero _)
  prev within := absurd within (Nat.not_lt_zero _)
  span _ := Nat.le_refl 0
  first _ := rfl
  last _ := rfl
  seek _ _ _ _ _ _ := rfl
  unread := rfl
  stops := ⟨rfl, rfl⟩
  refuses _ _ _ filled _ := absurd rfl filled

end Moves

end WriteBuffer
