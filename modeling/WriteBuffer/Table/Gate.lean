import WriteBuffer.Failure

/-!
The gate through which the only writer of a table goes. It lets one writer in at a time, and none
once the table is read-only. A writer always leaves again, whether its insert succeeded or not.
-/
namespace WriteBuffer

/-- Whether a table is read-only, and whether a writer is in. -/
structure Gate where
  readOnly : Bool := false
  occupied : Bool := false
deriving DecidableEq, Repr

namespace Gate

def enter (gate : Gate) (table : TableKind) : Except Failure Gate :=
  if gate.readOnly then .error (.readOnly table)
  else if gate.occupied then .error (.secondWriter table)
  else .ok { gate with occupied := true }

def leave (gate : Gate) : Gate := { gate with occupied := false }

def close (gate : Gate) : Gate := { gate with readOnly := true }

end Gate

end WriteBuffer
