import WriteBuffer.Store.Shelf
import WriteBuffer.Table.Event
import WriteBuffer.Table.Gate

/-!
What all tables share: the shelf with their entries, the gate for the writer, and the events
reported so far, around an index that arranges the handles of the entries.
-/
namespace WriteBuffer

/-- A table with an index of type `ι`. -/
structure Table (ι : Type) where
  shelf : Shelf
  gate : Gate := {}
  log : List Event := []
  index : ι

namespace Table

variable {ι : Type}

def report (table : Table ι) (event : Event) : Table ι :=
  { table with log := table.log ++ [event] }

/-- The table with an entry published. -/
def publish (table : Table ι) (draft : Draft) : Except Failure (Table ι) := do
  let arena ← table.shelf.arena.publish draft
  return { table with shelf := { table.shelf with arena } }

/-- Carries out an insert as the only writer. -/
def asWriter (kind : TableKind) (insert : Table ι → Outcome (Table ι) Unit) (table : Table ι) :
    Outcome (Table ι) Unit :=
  match table.gate.enter kind with
  | .error failure => (table, .error failure)
  | .ok gate =>
    let (table, inserted) := insert { table with gate }
    ({ table with gate := table.gate.leave }, inserted)

/-- Takes in an entry: asks the table where it belongs, publishes it, and only then changes the table
by the answer. An entry that is published stays so, whatever becomes of the change. -/
def takeIn {α : Type} (draft : Draft) (question : Table ι → Except Failure α)
    (change : α → Table ι → Except Failure (Table ι)) (table : Table ι) : Outcome (Table ι) Unit :=
  match question table with
  | .error failure => (table, .error failure)
  | .ok answer =>
    match table.publish draft with
    | .error failure => (table, .error failure)
    | .ok published => commit published (change answer published)

/-- Makes the table read-only and reports whether it was already. -/
def close (kind : TableKind) (table : Table ι) : Table ι :=
  let event := if table.gate.readOnly then .stillReadOnly kind else .nowReadOnly kind
  { table.report event with gate := table.gate.close }

def isReadOnly (table : Table ι) : Bool := table.gate.readOnly

def withOrder (order : KeyOrder) (table : Table ι) : Table ι :=
  { table with shelf := { table.shelf with order } }

end Table

end WriteBuffer
