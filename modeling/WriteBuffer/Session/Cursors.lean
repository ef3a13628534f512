import WriteBuffer.Cursor.Moves
import WriteBuffer.Entry.InternalKey

/-!
Sessions with a cursor: movements, each answered by the entry arrived at, and walks to the end.
-/
namespace WriteBuffer

/-- A step of a session with a cursor. -/
inductive CursorCommand
  | move (motion : Motion)
  | seekKey (key : InternalKey)
  | valid
  | entry
  | walk
  | walkBack
deriving DecidableEq, Repr

/-- An answer of a cursor. -/
inductive CursorReply
  | current (entry : Option Bytes)
  | flag (holds : Bool)
  | entry (entry : Bytes)
  | entries (entries : List Bytes)
deriving DecidableEq, Repr

namespace Moves

variable {ι : Type}

/-- Moves a cursor and answers the entry it arrives at. A movement that fails leaves it in place. -/
def moveAndShow (moves : Moves ι) (motion : Motion) (cursor : ι) : Outcome ι CursorReply :=
  match moves.move motion cursor with
  | .error failure => (cursor, .error failure)
  | .ok arrived => (arrived, (moves.current arrived).map .current)

/-- Carries out a step. -/
def execute (moves : Moves ι) (cursor : ι) : CursorCommand → Outcome ι CursorReply
  | .move motion => moves.moveAndShow motion cursor
  | .seekKey key =>
    match key.encode with
    | .error failure => (cursor, .error failure)
    | .ok internalKey => moves.moveAndShow (.seek internalKey) cursor
  | .valid => (cursor, .ok (.flag (moves.valid cursor)))
  | .entry => (cursor, (moves.entry cursor).map .entry)
  | .walk =>
    let (stop, entries) := moves.walkForward cursor
    (stop, entries.map .entries)
  | .walkBack =>
    let (stop, entries) := moves.walkBackward cursor
    (stop, entries.map .entries)

end Moves

end WriteBuffer
