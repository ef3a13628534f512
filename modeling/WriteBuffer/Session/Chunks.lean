import WriteBuffer.Session.Named
import WriteBuffer.Store.Chunks

/-!
Sessions with a chunk store.
-/
namespace WriteBuffer

/-- A step of a session with a chunk store. -/
inductive ChunkCommand (α : Type)
  | reserve
  | publish (index : UInt32) (value : α)
  | push (value : α)
  | pushAll (values : List α)
  | get (index : UInt32)
  | size
  | isEmpty
  | allocatedSlots
deriving DecidableEq, Repr

/-- An answer of a chunk store. -/
inductive ChunkReply (α : Type)
  | done
  | index (index : UInt32)
  | lastIndex (index : Option UInt32)
  | value (value : Option α)
  | count (n : Nat)
  | slots (n : Nat)
  | flag (holds : Bool)
deriving DecidableEq, Repr

namespace ChunkStore

variable {α : Type}

/-- Pushes values one after the other, up to the first that fails; answers the last index. -/
def pushAll : ChunkStore α → (last : Option UInt32) → List α →
    Outcome (ChunkStore α) (Option UInt32)
  | store, last, [] => (store, .ok last)
  | store, _, value :: rest =>
    match store.push value with
    | (store, .ok index) => pushAll store (some index) rest
    | (store, .error failure) => (store, .error failure)

/-- Carries out a step. -/
def execute (store : ChunkStore α) : ChunkCommand α → Stepped (ChunkStore α) (ChunkReply α)
  | .reserve =>
    let (store, reserved) := store.reserve
    (store, StepError.ofFailure (reserved.map .index))
  | .publish index value =>
    let (store, published) := store.publish index value
    (store, StepError.ofFailure (published.map fun _ => .done))
  | .push value =>
    let (store, pushed) := store.push value
    (store, StepError.ofFailure (pushed.map .index))
  | .pushAll values =>
    let (store, pushed) := store.pushAll none values
    (store, StepError.ofFailure (pushed.map .lastIndex))
  | .get index => (store, .ok (.value (store.get? index)))
  | .size => (store, .ok (.count store.size))
  | .isEmpty => (store, .ok (.flag (store.size == 0)))
  | .allocatedSlots => (store, .ok (.slots store.allocatedSlots))

end ChunkStore

end WriteBuffer
