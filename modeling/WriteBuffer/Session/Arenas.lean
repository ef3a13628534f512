import WriteBuffer.Session.Named
import WriteBuffer.Store.Arena

/-!
Sessions with several arenas and the drafts handed out by them.
-/
namespace WriteBuffer

/-- Some arenas and the drafts that are not published yet, by name. -/
structure ArenaSession where
  arenas : List Arena
  drafts : Named Draft := []

/-- A step of a session with arenas, which are spoken of by number. -/
inductive ArenaCommand
  | allocate (arena size : Nat) (name : String)
  | fill (name : String) (bytes : Bytes)
  | inspect (name : String)
  | discard (name : String)
  | publish (arena : Nat) (name : String)
  | get (arena : Nat) (handle : Handle)
  | size (arena : Nat)
  | isEmpty (arena : Nat)
  | memory (arena : Nat)
  | describe (arena : Nat)
  | compare (a b : Handle)
deriving DecidableEq, Repr

/-- An answer of a session with arenas. -/
inductive ArenaReply
  | done
  | handle (handle : Handle)
  | draft (text : String) (bytes : Bytes)
  | bytes (bytes : Bytes)
  | count (n : Nat)
  | flag (holds : Bool)
  | text (text : String)
  | comparison (a : Handle) (isNowhere : Bool) (order : Ordering)
deriving DecidableEq, Repr

namespace ArenaSession

/-- A session with some arenas. -/
def start (count : Nat) : ArenaSession where
  arenas := (List.range count).map fun id => { id }

/-- Answers a question about an arena. -/
def ask (session : ArenaSession) (arena : Nat) (f : Arena → Except Failure ArenaReply) :
    Stepped ArenaSession ArenaReply :=
  (session, match session.arenas[arena]? with
    | some arena => StepError.ofFailure (f arena)
    | none => .error (.failed .outOfRange))

/-- Carries out a step. A draft is gone once it was to be published, even if it was refused. -/
def execute (session : ArenaSession) : ArenaCommand → Stepped ArenaSession ArenaReply
  | .allocate number size name =>
    match session.arenas[number]? with
    | none => (session, .error (.failed .outOfRange))
    | some arena =>
      let (arena, allocated) := arena.allocate size
      let session := { session with arenas := session.arenas.set number arena }
      match allocated with
      | .error failure => (session, .error (.failed failure))
      | .ok draft =>
        ({ session with drafts := session.drafts.put name draft }, .ok (.handle draft.handle))
  | .fill name bytes =>
    match session.drafts.find? name with
    | none => (session, .error .noBuffer)
    | some draft =>
      match draft.fill bytes with
      | .error failure => (session, .error (.failed failure))
      | .ok draft => ({ session with drafts := session.drafts.put name draft }, .ok .done)
  | .inspect name =>
    match session.drafts.find? name with
    | none => (session, .error .noBuffer)
    | some draft => (session, .ok (.draft draft.describe draft.bytes))
  | .discard name =>
    match session.drafts.find? name with
    | none => (session, .error .noBuffer)
    | some _ => ({ session with drafts := session.drafts.drop name }, .ok .done)
  | .publish number name =>
    match session.drafts.find? name with
    | none => (session, .error .noBuffer)
    | some draft =>
      let session := { session with drafts := session.drafts.drop name }
      match session.arenas[number]? with
      | none => (session, .error (.failed .outOfRange))
      | some arena =>
        match arena.publish draft with
        | .error failure => (session, .error (.failed failure))
        | .ok arena =>
          ({ session with arenas := session.arenas.set number arena }, .ok (.handle draft.handle))
  | .get number handle => session.ask number fun arena => (arena.get handle).map .bytes
  | .size number => session.ask number fun arena => .ok (.count arena.size)
  | .isEmpty number => session.ask number fun arena => .ok (.flag (arena.size == 0))
  | .memory number => session.ask number fun arena => .ok (.count arena.memory)
  | .describe number => session.ask number fun arena => .ok (.text arena.describe)
  | .compare a b => (session, .ok (.comparison a (a == .nowhere) (Ord.compare a b)))

end ArenaSession

end WriteBuffer
