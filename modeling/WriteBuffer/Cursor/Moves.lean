import WriteBuffer.Bytes
import WriteBuffer.Failure

/-!
Cursors over sorted entries, given by what they show and how they move. A move that breaks off
leaves the cursor where it was, since the new cursor is only had from a move that succeeds.
-/
namespace WriteBuffer

/-- What a cursor shows and how it moves. No walk in one direction meets more than `span`
entries. -/
structure Moves (ι : Type) where
  valid : ι → Bool
  entry : ι → Except Failure Bytes
  next : ι → Except Failure ι
  prev : ι → Except Failure ι
  seek : Bytes → ι → Except Failure ι
  first : ι → Except Failure ι
  last : ι → Except Failure ι
  span : ι → Nat

/-- A single movement of a cursor. -/
inductive Motion
  | next
  | prev
  | seek (internalKey : Bytes)
  | first
  | last
deriving DecidableEq, Repr

/-- Runs a computation at the place of a cursor that is at an entry. -/
def atPlace {ι α : Type} (place : Option ι) (f : ι → Except Failure α) : Except Failure α :=
  match place with
  | none => .error .unpositioned
  | some id => f id

namespace Moves

variable {ι : Type}

/-- Carries out a movement. -/
def move (moves : Moves ι) : Motion → ι → Except Failure ι
  | .next => moves.next
  | .prev => moves.prev
  | .seek internalKey => moves.seek internalKey
  | .first => moves.first
  | .last => moves.last

/-- The entry under the cursor, or nothing when it is at none. -/
def current (moves : Moves ι) (cursor : ι) : Except Failure (Option Bytes) :=
  if moves.valid cursor then (moves.entry cursor).map some else .ok none

/-- The entries met by repeating a step until the cursor is at none, in at most `bound` steps. -/
def walk (moves : Moves ι) (step : ι → Except Failure ι) :
    (bound : Nat) → ι → Outcome ι (List Bytes)
  | 0, cursor => (cursor, if moves.valid cursor then .error .endlessChain else .ok [])
  | bound + 1, cursor =>
    if moves.valid cursor then
      match moves.entry cursor, step cursor with
      | .ok entry, .ok further =>
        let (stop, entries) := walk moves step bound further
        (stop, entries.map (entry :: ·))
      | .error failure, _ | _, .error failure => (cursor, .error failure)
    else (cursor, .ok [])

/-- The entries from the cursor to the end. -/
def walkForward (moves : Moves ι) (cursor : ι) : Outcome ι (List Bytes) :=
  moves.walk moves.next (moves.span cursor) cursor

/-- The entries from the cursor back to the beginning. -/
def walkBackward (moves : Moves ι) (cursor : ι) : Outcome ι (List Bytes) :=
  moves.walk moves.prev (moves.span cursor) cursor

/-- The entries shown to a visitor, which is told all it has been shown after each of them and says
whether to go on. -/
def visit (moves : Moves ι) (goesOn : List Bytes → Bool) :
    (bound : Nat) → (shown : List Bytes) → ι → Except Failure (List Bytes)
  | 0, shown, cursor => if moves.valid cursor then .error .endlessChain else .ok shown
  | bound + 1, shown, cursor =>
    if moves.valid cursor then do
      let shown := shown ++ [← moves.entry cursor]
      if goesOn shown then visit moves goesOn bound shown (← moves.next cursor)
      else return shown
    else .ok shown

/-- The entries that a visitor sees from an internal key on. -/
def visitFrom (moves : Moves ι) (cursor : ι) (internalKey : Bytes) (goesOn : List Bytes → Bool) :
    Except Failure (List Bytes) := do
  let start ← moves.seek internalKey cursor
  moves.visit goesOn (moves.span start) [] start

/-- The cursor over no entries. -/
def ofNothing : Moves Unit where
  valid _ := false
  entry _ := .error .unpositioned
  next _ := .error .unpositioned
  prev _ := .error .unpositioned
  seek _ _ := .ok ()
  first _ := .ok ()
  last _ := .ok ()
  span _ := 0

end Moves

end WriteBuffer
