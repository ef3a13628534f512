import WriteBuffer.Failure

/-!
Values by name, and the errors of sessions, in which things are spoken of by name.
-/
namespace WriteBuffer

/-- Values by name, the latest first. -/
abbrev Named (α : Type) := List (String × α)

namespace Named

variable {α : Type}

def find? (named : Named α) (name : String) : Option α := named.lookup name

def drop (named : Named α) (name : String) : Named α := named.filter (·.1 != name)

def put (named : Named α) (name : String) (value : α) : Named α :=
  (name, value) :: named.drop name

@[simp] theorem find?_drop (named : Named α) (name other : String) :
    (named.drop name).find? other = if other = name then none else named.find? other := by
  simp only [find?, drop]
  induction named with
  | nil => simp
  | cons first rest ih => grind

@[simp] theorem find?_put (named : Named α) (name other : String) (value : α) :
    (named.put name value).find? other = if other = name then some value else named.find? other := by
  have dropped := find?_drop named name other
  simp only [find?, put] at dropped ⊢
  by_cases same : other = name
  · simp [same]
  · simp only [List.lookup_cons, beq_eq_false_iff_ne.mpr same, dropped, same, if_false]

end Named

/-- Why a step of a session has no answer. -/
inductive StepError
  | failed (failure : Failure)
  | noBuffer
  | noCursor
  | unsupported
deriving DecidableEq, Repr

/-- The words for a step that names what is not there. -/
def StepError.message : StepError → Option String
  | failed failure => failure.message
  | noBuffer => some "no such buffer"
  | noCursor => some "no such iterator"
  | unsupported => some "unsupported step"

/-- What a step leaves behind: the session, and the answer or the reason why there is none. -/
abbrev Stepped (σ α : Type) := σ × Except StepError α

/-- Turns the failure of an operation into that of a step. -/
def StepError.ofFailure {α : Type} : Except Failure α → Except StepError α
  | .ok answer => .ok answer
  | .error failure => .error (.failed failure)

end WriteBuffer
