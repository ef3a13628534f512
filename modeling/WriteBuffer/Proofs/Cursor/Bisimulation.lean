import Mathlib
import WriteBuffer.Session.Cursors

/-!
Cursors that cannot be told apart. If related cursors show the same entry and every movement takes
them to related cursors or fails on both alike (`Moves.Bisimilar`), a session with one of them is
answered as one with the other (`Moves.Bisimilar.execute`). Walks end alike where both kinds of cursors
are given the same number of steps.
-/
namespace WriteBuffer

/-- Computations both succeed with related results, or both fail alike. -/
def Both {ι κ : Type} (R : ι → κ → Prop) : Except Failure ι → Except Failure κ → Prop
  | .ok a, .ok b => R a b
  | .error failure, .error other => failure = other
  | _, _ => False

namespace Both

variable {ι κ ι' κ' : Type} {R S : ι → κ → Prop} {T : ι' → κ' → Prop} {x : Except Failure ι}
  {y : Except Failure κ}

theorem cases (both : Both R x y) :
    (∃ a b, x = .ok a ∧ y = .ok b ∧ R a b) ∨ ∃ failure, x = .error failure ∧ y = .error failure := by
  match x, y with
  | .ok a, .ok b => exact .inl ⟨a, b, rfl, rfl, both⟩
  | .error failure, .error _ => exact .inr ⟨failure, rfl, congrArg _ both.symm⟩
  | .ok _, .error _ | .error _, .ok _ => exact both.elim

theorem bind (both : Both R x y) {f : ι → Except Failure ι'} {g : κ → Except Failure κ'}
    (rest : ∀ a b, x = .ok a → y = .ok b → R a b → Both T (f a) (g b)) :
    Both T (x >>= f) (y >>= g) := by
  rcases both.cases with ⟨a, b, rfl, rfl, related⟩ | ⟨failure, rfl, rfl⟩
  · exact rest a b rfl rfl related
  · exact rfl

theorem mono (both : Both R x y) (sub : ∀ a b, R a b → S a b) : Both S x y := by
  rcases both.cases with ⟨a, b, rfl, rfl, related⟩ | ⟨failure, rfl, rfl⟩
  · exact sub a b related
  · exact rfl

theorem map (both : Both R x y) {f : ι → ι'} {g : κ → κ'} (rest : ∀ a b, R a b → T (f a) (g b)) :
    Both T (x.map f) (y.map g) := by
  rcases both.cases with ⟨a, b, rfl, rfl, related⟩ | ⟨failure, rfl, rfl⟩
  · exact rest a b related
  · exact rfl

theorem eq {x y : Except Failure ι} (both : Both Eq x y) : x = y := by
  rcases both.cases with ⟨a, b, rfl, rfl, rfl⟩ | ⟨failure, rfl, rfl⟩ <;> rfl

theorem mapM {γ : Type} {f : γ → Except Failure ι} {g : γ → Except Failure κ} {xs : List γ}
    (each : ∀ x, Both R (f x) (g x)) : Both (List.Forall₂ R) (xs.mapM f) (xs.mapM g) := by
  induction xs with
  | nil => exact .nil
  | cons x rest ih =>
    simp only [List.mapM_cons]
    exact (each x).bind fun _ _ _ _ first => ih.bind fun _ _ _ _ others => .cons first others

theorem of_eq {R : ι → ι → Prop} (refl : ∀ a, x = .ok a → R a a) : Both R x x := by
  cases x with
  | ok a => exact refl a rfl
  | error failure => exact rfl

end Both

/-- Two operations gave the same answer and left related states behind. -/
structure Agree {σ τ α : Type} (R : σ → τ → Prop) (x : σ × α) (y : τ × α) : Prop where
  answer : y.2 = x.2
  states : R x.1 y.1

theorem Agree.comp {σ τ υ α : Type} {R : σ → τ → Prop} {S : τ → υ → Prop} {x : σ × α} {y : τ × α}
    {z : υ × α} (first : Agree R x y) (second : Agree S y z) : Agree (Relation.Comp R S) x z :=
  ⟨second.answer.trans first.answer, y.1, first.states, second.states⟩

/-- A command that takes a bounded number of steps, whatever the cursor. -/
def CursorCommand.IsStep : CursorCommand → Bool
  | walk | walkBack => false
  | _ => true

namespace Moves

variable {ι κ : Type} {left : Moves ι} {right : Moves κ} {R : ι → κ → Prop} {a : ι} {b : κ}

/-- Related cursors show the same and move to related cursors. -/
structure Bisimilar (left : Moves ι) (right : Moves κ) (R : ι → κ → Prop) : Prop where
  valid : ∀ {a b}, R a b → left.valid a = right.valid b
  entry : ∀ {a b}, R a b → left.entry a = right.entry b
  move : ∀ {a b}, R a b → ∀ motion, Both R (left.move motion a) (right.move motion b)

namespace Bisimilar

theorem current_eq (bisimilar : left.Bisimilar right R) (related : R a b) :
    left.current a = right.current b := by
  rw [current, current, bisimilar.valid related, bisimilar.entry related]

theorem moveAndShow (bisimilar : left.Bisimilar right R) (related : R a b) (motion : Motion) :
    R (left.moveAndShow motion a).1 (right.moveAndShow motion b).1 ∧
      (left.moveAndShow motion a).2 = (right.moveAndShow motion b).2 := by
  simp only [Moves.moveAndShow]
  rcases (bisimilar.move related motion).cases with
    ⟨arrived, reached, moved, other, relatedNow⟩ | ⟨failure, moved, other⟩
  · simpa only [moved, other, bisimilar.current_eq relatedNow, and_true] using relatedNow
  · simpa only [moved, other, and_true] using related

/-- Walks that repeat matching steps show the same. -/
theorem walk (bisimilar : left.Bisimilar right R) {step : ι → Except Failure ι}
    {other : κ → Except Failure κ} (steps : ∀ {a b}, R a b → Both R (step a) (other b)) (bound : Nat)
    (related : R a b) :
    R (left.walk step bound a).1 (right.walk other bound b).1 ∧
      (left.walk step bound a).2 = (right.walk other bound b).2 := by
  induction bound generalizing a b with
  | zero => exact ⟨related, by simp only [Moves.walk, bisimilar.valid related]⟩
  | succ bound ih =>
    simp only [Moves.walk, bisimilar.valid related, bisimilar.entry related]
    split
    · cases right.entry b with
      | error failure => exact ⟨related, rfl⟩
      | ok entry =>
        rcases (steps related).cases with
          ⟨arrived, reached, stepped, further, relatedNow⟩ | ⟨failure, stepped, further⟩
        · obtain ⟨stops, same⟩ := ih relatedNow
          simpa only [stepped, further, same, and_true] using stops
        · simpa only [stepped, further, and_true] using related
    · exact ⟨related, rfl⟩

theorem walkForward (bisimilar : left.Bisimilar right R)
    (spans : ∀ {a b}, R a b → left.span a = right.span b) (related : R a b) :
    R (left.walkForward a).1 (right.walkForward b).1 ∧
      (left.walkForward a).2 = (right.walkForward b).2 := by
  rw [Moves.walkForward, Moves.walkForward, spans related]
  exact bisimilar.walk (fun related => bisimilar.move related .next) _ related

theorem walkBackward (bisimilar : left.Bisimilar right R)
    (spans : ∀ {a b}, R a b → left.span a = right.span b) (related : R a b) :
    R (left.walkBackward a).1 (right.walkBackward b).1 ∧
      (left.walkBackward a).2 = (right.walkBackward b).2 := by
  rw [Moves.walkBackward, Moves.walkBackward, spans related]
  exact bisimilar.walk (fun related => bisimilar.move related .prev) _ related

/-- A visitor is shown the same entries from related cursors that are bounded alike. -/
theorem visitFrom (bisimilar : left.Bisimilar right R)
    (spans : ∀ {a b}, R a b → left.span a = right.span b) (related : R a b) (internalKey : Bytes)
    (goesOn : List Bytes → Bool) :
    left.visitFrom a internalKey goesOn = right.visitFrom b internalKey goesOn := by
  have visits : ∀ bound shown {a b}, R a b →
      left.visit goesOn bound shown a = right.visit goesOn bound shown b := by
    intro bound
    induction bound with
    | zero => exact fun shown {a b} related => by simp only [visit, bisimilar.valid related]
    | succ bound ih =>
      intro shown a b related
      simp only [visit, bisimilar.valid related, bisimilar.entry related]
      split
      · refine bind_congr fun entry => ?_
        split
        · refine Both.eq ((bisimilar.move related .next).bind fun further other _ _ related => ?_)
          rw [ih _ related]
          exact Both.of_eq fun _ _ => rfl
        · rfl
      · rfl
  refine Both.eq ((bisimilar.move related (.seek internalKey)).bind fun start other _ _ related => ?_)
  rw [spans related, visits _ _ related]
  exact Both.of_eq fun _ _ => rfl

/-- A session with one cursor is answered as with the other, walks included if both are bounded
alike. -/
theorem execute (bisimilar : left.Bisimilar right R) (related : R a b) {command : CursorCommand}
    (bounded : command.IsStep = true ∨ ∀ {a b}, R a b → left.span a = right.span b) :
    R (left.execute a command).1 (right.execute b command).1 ∧
      (left.execute a command).2 = (right.execute b command).2 := by
  cases command with
  | move motion => exact bisimilar.moveAndShow related motion
  | seekKey key =>
    simp only [Moves.execute]
    cases key.encode with
    | error failure => exact ⟨related, rfl⟩
    | ok internalKey => exact bisimilar.moveAndShow related (.seek internalKey)
  | valid => exact ⟨related, by simp only [Moves.execute, bisimilar.valid related]⟩
  | entry => exact ⟨related, by simp only [Moves.execute, bisimilar.entry related]⟩
  | walk =>
    rcases bounded with single | spans
    · cases single
    · obtain ⟨stops, same⟩ := bisimilar.walkForward spans related
      exact ⟨stops, congrArg (Except.map CursorReply.entries) same⟩
  | walkBack =>
    rcases bounded with single | spans
    · cases single
    · obtain ⟨stops, same⟩ := bisimilar.walkBackward spans related
      exact ⟨stops, congrArg (Except.map CursorReply.entries) same⟩

end Bisimilar

end Moves

end WriteBuffer
