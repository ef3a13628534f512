import Mathlib
import WriteBuffer.Proofs.Storage
import WriteBuffer.Table.Basic

/-!
What all inserts share. Publishing changes no more than the arena (`Table.publish_ok`), and a writer
that takes in an entry makes its change or leaves the index as it was (`Table.asWriter_takeIn`).
-/
namespace WriteBuffer

/-- The entry of a draft if an insert of it succeeded. -/
def gained (draft : Draft) : Except Failure Unit → List Bytes
  | .ok () => [draft.bytes]
  | .error _ => []

theorem gained_eq {draft : Draft} {answer : Except Failure Unit} {entry : Bytes}
    (member : entry ∈ gained draft answer) : entry = draft.bytes := by
  cases answer with
  | error failure => cases member
  | ok done => exact List.mem_singleton.mp member

/-- What an insert makes of a shelf: it fails and leaves the shelf as it was, or it publishes the entry
of its draft. -/
inductive Shelf.Taking (draft : Draft) (shelf : Shelf) : Outcome Shelf Unit → Prop
  | refused (failure : Failure) : Taking draft shelf (shelf, .error failure)
  | published {arena : Arena} (stored : shelf.arena.publish draft = .ok arena)
    (answer : Except Failure Unit) : Taking draft shelf ({ shelf with arena }, answer)

theorem Shelf.Taking.extends {draft : Draft} {shelf : Shelf} {outcome : Outcome Shelf Unit}
    (taking : shelf.Taking draft outcome) : shelf.Extends outcome.1 := by
  cases taking with
  | refused failure => exact .refl _
  | published stored answer => exact ⟨rfl, (Arena.get_publish stored).2⟩

theorem Shelf.Taking.stored {draft : Draft} {shelf now : Shelf}
    (taking : shelf.Taking draft (now, .ok ())) : shelf.arena.publish draft = .ok now.arena := by
  cases taking with
  | published stored answer => exact stored

namespace Table

variable {ι : Type} {table published : Table ι} {draft : Draft}

/-- Two tables agree up to their gates. -/
def SameBut (a b : Table ι) : Prop := a.shelf = b.shelf ∧ a.index = b.index ∧ a.log = b.log

/-- A writer is either kept out, and then the table is as it was, or its insert is carried out. -/
theorem asWriter_cases (kind : TableKind) (insert : Table ι → Outcome (Table ι) Unit)
    (table : Table ι) :
    (∃ failure, table.gate.enter kind = .error failure ∧
      asWriter kind insert table = (table, .error failure)) ∨
    ∃ gate, table.gate.enter kind = .ok gate ∧
      (insert { table with gate }).1.SameBut (asWriter kind insert table).1 ∧
      (asWriter kind insert table).1.gate = (insert { table with gate }).1.gate.leave ∧
      (asWriter kind insert table).2 = (insert { table with gate }).2 := by
  cases entered : table.gate.enter kind with
  | error failure => exact .inl ⟨failure, rfl, by simp only [asWriter, entered]⟩
  | ok gate =>
    refine .inr ⟨gate, rfl, ?_⟩
    simp only [asWriter, entered]
    exact ⟨⟨rfl, rfl, rfl⟩, trivial, trivial⟩

theorem asWriter_taking (kind : TableKind) {insert : Table ι → Outcome (Table ι) Unit}
    (each : ∀ table : Table ι, table.shelf.Taking draft ((insert table).1.shelf, (insert table).2))
    (table : Table ι) : table.shelf.Taking draft
      ((asWriter kind insert table).1.shelf, (asWriter kind insert table).2) := by
  rcases asWriter_cases kind insert table with
    ⟨failure, _, kept⟩ | ⟨gate, _, ⟨shelf, _⟩, _, answer⟩
  · rw [kept]
    exact .refused failure
  · rw [← shelf, answer]
    exact each { table with gate }

theorem asWriter_closed (kind : TableKind) (insert : Table ι → Outcome (Table ι) Unit)
    (closed : table.isReadOnly = true) :
    asWriter kind insert table = (table, .error (.readOnly kind)) := by
  have closed : table.gate.readOnly = true := closed
  simp [asWriter, Gate.enter, closed]

/-- A writer whose insert leaves the gate alone leaves a table read-only or open as it was. -/
theorem asWriter_isReadOnly (kind : TableKind) {insert : Table ι → Outcome (Table ι) Unit}
    (onGate : ∀ table : Table ι, (insert table).1.gate = table.gate) (table : Table ι) :
    (asWriter kind insert table).1.isReadOnly = table.isReadOnly := by
  by_cases closed : table.isReadOnly = true
  · rw [asWriter_closed kind insert closed]
  · rcases asWriter_cases kind insert table with ⟨_, _, kept⟩ | ⟨gate, entered, _, left, _⟩
    · rw [kept]
    · have opened : table.gate.readOnly = false := Bool.eq_false_of_not_eq_true closed
      simp only [Gate.enter, opened, Bool.false_eq_true, if_false] at entered
      split at entered
      · cases entered
      · obtain rfl := Except.ok.inj entered
        rw [isReadOnly, left, onGate]
        exact opened.symm

theorem asWriter_open (kind : TableKind) (insert : Table ι → Outcome (Table ι) Unit)
    (opened : table.gate.readOnly = false) (vacant : table.gate.occupied = false) :
    asWriter kind insert table =
      let (changed, inserted) := insert { table with gate := ⟨false, true⟩ }
      ({ changed with gate := changed.gate.leave }, inserted) := by
  obtain ⟨shelf, ⟨readOnly, occupied⟩, log, index⟩ := table
  obtain rfl : readOnly = false := opened
  obtain rfl : occupied = false := vacant
  rfl

theorem leave_entered (opened : table.gate.readOnly = false)
    (vacant : table.gate.occupied = false) :
    ({ table with gate := Gate.leave ⟨false, true⟩ } : Table ι) = table := by
  obtain ⟨shelf, ⟨readOnly, occupied⟩, log, index⟩ := table
  obtain rfl : readOnly = false := opened
  obtain rfl : occupied = false := vacant
  rfl

/-- Publishing in a table changes its arena only. -/
theorem publish_ok (done : table.publish draft = .ok published) :
    ∃ arena, table.shelf.arena.publish draft = .ok arena ∧
      published = { table with shelf := { table.shelf with arena } } := by
  simp only [publish] at done
  cases stored : table.shelf.arena.publish draft with
  | error failure => simp [stored, bind, Except.bind] at done
  | ok arena =>
    simp only [stored, bind, Except.bind, pure, Except.pure, Except.ok.injEq] at done
    exact ⟨arena, rfl, done.symm⟩

section TakeIn

variable {α : Type} {question : Table ι → Except Failure α}
  {change : α → Table ι → Except Failure (Table ι)} {answer : α} {changed : Table ι}

theorem takeIn_ok (asked : question table = .ok answer) (stored : table.publish draft = .ok published)
    (done : change answer published = .ok changed) :
    takeIn draft question change table = (changed, .ok ()) := by
  simp only [takeIn, asked, stored, done, commit]

/-- Taking in an entry fails before anything is changed, or after the entry was published; or the
change is made. -/
theorem takeIn_cases (draft : Draft) (question : Table ι → Except Failure α)
    (change : α → Table ι → Except Failure (Table ι)) (table : Table ι) :
    (∃ failure, takeIn draft question change table = (table, .error failure)) ∨
    ∃ answer published, question table = .ok answer ∧ table.publish draft = .ok published ∧
      ((∃ failure, change answer published = .error failure ∧
          takeIn draft question change table = (published, .error failure)) ∨
        ∃ changed, change answer published = .ok changed ∧
          takeIn draft question change table = (changed, .ok ())) := by
  cases asked : question table with
  | error failure => exact .inl ⟨failure, by simp only [takeIn, asked]⟩
  | ok answer =>
    cases stored : table.publish draft with
    | error failure => exact .inl ⟨failure, by simp only [takeIn, asked, stored]⟩
    | ok published =>
      refine .inr ⟨answer, published, rfl, rfl, ?_⟩
      cases done : change answer published with
      | error failure => exact .inl ⟨failure, rfl, by simp only [takeIn, asked, stored, done, commit]⟩
      | ok changed => exact .inr ⟨changed, rfl, takeIn_ok asked stored done⟩

theorem takeIn_gate (draft : Draft) (question : Table ι → Except Failure α)
    {change : α → Table ι → Except Failure (Table ι)}
    (onGate : ∀ answer published changed, change answer published = .ok changed →
      changed.gate = published.gate) (table : Table ι) :
    (takeIn draft question change table).1.gate = table.gate := by
  rcases takeIn_cases draft question change table with
    ⟨failure, refused⟩ | ⟨answer, published, _, stored, ⟨failure, _, failed⟩ | ⟨changed, done, taken⟩⟩
  · rw [refused]
  · obtain ⟨arena, _, rfl⟩ := publish_ok stored
    rw [failed]
  · obtain ⟨arena, _, rfl⟩ := publish_ok stored
    rw [taken, onGate answer _ changed done]

/-- A table is as another one was, up to its gate and to entries that were published beside. -/
structure Stays (old new : Table ι) : Prop where
  order : new.shelf.order = old.shelf.order
  keeps : old.shelf.arena.Keeps new.shelf.arena
  index : new.index = old.index

theorem stays_publish (stored : table.publish draft = .ok published) : table.Stays published := by
  obtain ⟨arena, added, rfl⟩ := publish_ok stored
  exact ⟨rfl, (Arena.get_publish added).2, rfl⟩

/-- Taking in an entry fails and leaves the index as it was, or makes the change. -/
theorem takeIn_stays (draft : Draft) (question : Table ι → Except Failure α)
    (change : α → Table ι → Except Failure (Table ι)) (table : Table ι) :
    (∃ failure, (takeIn draft question change table).2 = .error failure ∧
      table.Stays (takeIn draft question change table).1) ∨
    ∃ answer published changed, question table = .ok answer ∧
      table.publish draft = .ok published ∧ change answer published = .ok changed ∧
      takeIn draft question change table = (changed, .ok ()) := by
  rcases takeIn_cases draft question change table with
    ⟨failure, refused⟩ | ⟨answer, published, asked, stored, ⟨failure, _, failed⟩ | ⟨changed, done, taken⟩⟩
  · exact .inl ⟨failure, by rw [refused], by rw [refused]; exact ⟨rfl, fun found => found, rfl⟩⟩
  · exact .inl ⟨failure, by rw [failed], by rw [failed]; exact stays_publish stored⟩
  · exact .inr ⟨answer, published, changed, asked, stored, done, taken⟩

/-- A writer who takes in an entry fails and leaves the index as it was, or makes the change. -/
theorem asWriter_takeIn (kind : TableKind) (draft : Draft) (question : Table ι → Except Failure α)
    (change : α → Table ι → Except Failure (Table ι)) (table : Table ι) :
    (∃ failure, (asWriter kind (takeIn draft question change) table).2 = .error failure ∧
      table.Stays (asWriter kind (takeIn draft question change) table).1) ∨
    ∃ gate answer published changed, table.gate.enter kind = .ok gate ∧
      question { table with gate } = .ok answer ∧
      publish { table with gate } draft = .ok published ∧ change answer published = .ok changed ∧
      (asWriter kind (takeIn draft question change) table).2 = .ok () ∧
      changed.SameBut (asWriter kind (takeIn draft question change) table).1 := by
  rcases asWriter_cases kind (takeIn draft question change) table with
    ⟨failure, _, kept⟩ | ⟨gate, entered, ⟨shelf, index, _⟩, _, result⟩
  · exact .inl ⟨failure, by rw [kept], by rw [kept]; exact ⟨rfl, fun found => found, rfl⟩⟩
  · rcases takeIn_stays draft question change { table with gate } with
      ⟨failure, failed, order, keeps, same⟩ | ⟨answer, published, changed, asked, stored, done, taken⟩
    · refine .inl ⟨failure, result.trans failed, ?_⟩
      rw [shelf] at order keeps
      exact ⟨order, keeps, index.symm.trans same⟩
    · rw [taken] at shelf index result
      exact .inr ⟨gate, answer, published, changed, entered, asked, stored, done, result, shelf,
        index, by rw [asWriter, entered]; simp only [taken]⟩

/-- If the change cannot fail once the question is answered and the entry published, a failure leaves
the table as it was. -/
theorem takeIn_whole (draft : Draft) (question : Table ι → Except Failure α)
    (change : α → Table ι → Except Failure (Table ι))
    (firm : ∀ {answer arena}, question table = .ok answer →
      table.shelf.arena.publish draft = .ok arena →
      ∃ changed, change answer { table with shelf := { table.shelf with arena } } = .ok changed) :
    (∃ failure, takeIn draft question change table = (table, .error failure) ∧
      (question table = .error failure ∨ table.shelf.arena.publish draft = .error failure)) ∨
    ∃ answer arena changed, question table = .ok answer ∧
      table.shelf.arena.publish draft = .ok arena ∧
      change answer { table with shelf := { table.shelf with arena } } = .ok changed ∧
      takeIn draft question change table = (changed, .ok ()) := by
  cases asked : question table with
  | error failure => exact .inl ⟨failure, by simp only [takeIn, asked], .inl rfl⟩
  | ok answer =>
    cases added : table.shelf.arena.publish draft with
    | error failure =>
      refine .inl ⟨failure, ?_, .inr rfl⟩
      simp only [takeIn, asked, publish, added, bind, Except.bind]
    | ok arena =>
      obtain ⟨changed, done⟩ := firm asked added
      have stored : table.publish draft
          = .ok { table with shelf := { table.shelf with arena } } := by
        simp only [publish, added]
        rfl
      exact .inr ⟨answer, arena, changed, rfl, rfl, done, takeIn_ok asked stored done⟩

/-- A writer whose change cannot fail leaves the table as it was when it fails. -/
theorem asWriter_whole (kind : TableKind) (draft : Draft) (question : Table ι → Except Failure α)
    (change : α → Table ι → Except Failure (Table ι)) (vacant : table.gate.occupied = false)
    (firm : ∀ {answer arena}, question { table with gate := ⟨false, true⟩ } = .ok answer →
      table.shelf.arena.publish draft = .ok arena →
      ∃ changed, change answer { table with
        gate := ⟨false, true⟩, shelf := { table.shelf with arena } } = .ok changed) :
    (∃ failure, asWriter kind (takeIn draft question change) table = (table, .error failure) ∧
      (table.isReadOnly = true ∨ question { table with gate := ⟨false, true⟩ } = .error failure ∨
        table.shelf.arena.publish draft = .error failure)) ∨
    ∃ answer arena changed, question { table with gate := ⟨false, true⟩ } = .ok answer ∧
      table.shelf.arena.publish draft = .ok arena ∧
      change answer { table with gate := ⟨false, true⟩, shelf := { table.shelf with arena } }
        = .ok changed ∧
      asWriter kind (takeIn draft question change) table
        = ({ changed with gate := changed.gate.leave }, .ok ()) := by
  by_cases closed : table.isReadOnly = true
  · exact .inl ⟨_, asWriter_closed kind _ closed, .inl closed⟩
  · have opened : table.gate.readOnly = false := Bool.eq_false_of_not_eq_true closed
    rw [asWriter_open kind _ opened vacant]
    rcases takeIn_whole draft question change firm with
      ⟨failure, kept, reason⟩ | ⟨answer, arena, changed, asked, added, done, taken⟩
    · refine .inl ⟨failure, ?_, .inr reason⟩
      simp only [kept, leave_entered opened vacant]
    · refine .inr ⟨answer, arena, changed, asked, added, done, ?_⟩
      simp only [taken]

theorem takeIn_taking (draft : Draft) (question : Table ι → Except Failure α)
    {change : α → Table ι → Except Failure (Table ι)}
    (onShelf : ∀ answer published changed, change answer published = .ok changed →
      changed.shelf = published.shelf) (table : Table ι) : table.shelf.Taking draft
        ((takeIn draft question change table).1.shelf, (takeIn draft question change table).2) := by
  rcases takeIn_cases draft question change table with
    ⟨failure, refused⟩ | ⟨answer, published, asked, stored, ⟨failure, _, failed⟩ | ⟨changed, done, taken⟩⟩
  · rw [refused]
    exact .refused failure
  · obtain ⟨arena, added, rfl⟩ := publish_ok stored
    rw [failed]
    exact .published added _
  · obtain ⟨arena, added, rfl⟩ := publish_ok stored
    rw [taken, onShelf answer _ changed done]
    exact .published added _

end TakeIn

end Table

end WriteBuffer
