import WriteBuffer.Entry.Record
import WriteBuffer.Session.Cursors
import WriteBuffer.Session.Named
import WriteBuffer.SkipList.Cursor

/-!
Sessions with several skip lists over one arena, on one node store or on one each.
-/
namespace WriteBuffer

/-- Some skip lists, each with the number of its node store. -/
structure SkipListSession where
  shelf : Shelf
  heights : Heights
  shared : Bool
  stores : List NodeStore
  lists : List (SkipList × Nat)
  cursors : Named (Nat × Option NodeId) := []

/-- A step of a session with skip lists, which are spoken of by number. -/
inductive SkipListCommand
  | add (list : Nat) (record : Record)
  | splice (list : Nat) (record : Record)
  | publish (record : Record)
  | link (list : Nat) (handle : Handle)
  | has (list : Nat) (key : InternalKey)
  | hasRaw (list : Nat) (internalKey : Bytes)
  | isEmpty (list : Nat)
  | handles (list : Nat)
  | nodeCount
  | arenaSize
  | openCursor (name : String) (list : Nat)
  | cursor (name : String) (command : CursorCommand)
deriving DecidableEq, Repr

/-- An answer of a session with skip lists. -/
inductive SkipListReply
  | done
  | handle (handle : Handle)
  | handles (handles : List Handle)
  | flag (holds : Bool)
  | count (n : Nat)
  | cursor (reply : CursorReply)
deriving DecidableEq, Repr

namespace SkipListSession

/-- A session with empty lists, on one node store if they share it. -/
def start (order : KeyOrder) (heights : Heights) (maxHeight branching count : Nat)
    (shared : Bool) : Except Failure SkipListSession := do
  let lists ← (List.range count).mapM fun number => do
    return (← SkipList.create maxHeight branching, if shared then 0 else number)
  return {
    shelf := { order, arena := { id := 0 } }
    heights
    shared
    stores := List.replicate (if shared then 1 else count) .empty
    lists }

/-- The number of nodes in the store that all lists share. -/
def sharedNodes (session : SkipListSession) : Nat :=
  if session.shared then session.stores.head?.elim 0 ChunkStore.size else 0

/-- A list with its number and its node store. -/
def find? (session : SkipListSession) (number : Nat) : Option (SkipList × Nat × NodeStore) := do
  let (list, store) ← session.lists[number]?
  return (list, store, ← session.stores[store]?)

/-- Writes a record into a draft of the arena; the handle of the draft is taken even if that
fails. -/
def draft (session : SkipListSession) (record : Record) : Outcome SkipListSession Draft :=
  let (arena, allocated) := session.shelf.arena.allocate record.size
  let session := { session with shelf := { session.shelf with arena } }
  (session, do
    let draft ← allocated
    let (bytes, written) := record.write draft.bytes
    written.map fun _ => { draft with bytes })

/-- The session with a draft published. -/
def publishDraft (session : SkipListSession) (draft : Draft) : Except Failure SkipListSession := do
  let arena ← session.shelf.arena.publish draft
  return { session with shelf := { session.shelf with arena } }

/-- The session with a list and its node store changed by an insert. -/
def replaced (session : SkipListSession) (number store : Nat) :
    NodeStore × SkipList × Nat → SkipListSession
  | (nodes, list, _) =>
    { session with
      stores := session.stores.set store nodes
      lists := session.lists.set number (list, store) }

/-- Answers a question about a list. -/
def ask (session : SkipListSession) (number : Nat)
    (f : SkipList → NodeStore → Except Failure SkipListReply) :
    Stepped SkipListSession SkipListReply :=
  (session, match session.find? number with
    | some (list, _, nodes) => StepError.ofFailure (f list nodes)
    | none => .error (.failed .outOfRange))

/-- Takes the new session of a change that succeeded and keeps the old one otherwise. -/
def settle (session : SkipListSession) (reply : SkipListReply)
    (changed : Except Failure SkipListSession) : Stepped SkipListSession SkipListReply :=
  match changed with
  | .ok changed => (changed, .ok reply)
  | .error failure => (session, .error (.failed failure))

/-- Links the handle of a published entry into a list. -/
def link (session : SkipListSession) (number : Nat) (handle : Handle) (reply : SkipListReply) :
    Stepped SkipListSession SkipListReply :=
  match session.find? number with
  | none => (session, .error (.failed .outOfRange))
  | some (list, store, nodes) =>
    session.settle reply do
      return session.replaced number store
        (← list.insert nodes session.heights session.shelf handle)

/-- Publishes an entry between finding its place in a list and linking it in there. -/
def splice (session : SkipListSession) (number : Nat) (draft : Draft) :
    Stepped SkipListSession SkipListReply :=
  match session.find? number with
  | none => (session, .error (.failed .outOfRange))
  | some (list, store, nodes) =>
    session.settle (.handle draft.handle) do
      let splice ← list.spliceFor nodes session.shelf draft.bytes
      let published ← session.publishDraft draft
      return published.replaced number store
        (← list.insertAt nodes session.heights splice draft.handle)

/-- Carries out a step. -/
def execute (session : SkipListSession) :
    SkipListCommand → Stepped SkipListSession SkipListReply
  | .add number record =>
    match session.draft record with
    | (session, .error failure) => (session, .error (.failed failure))
    | (session, .ok draft) =>
      match session.publishDraft draft with
      | .error failure => (session, .error (.failed failure))
      | .ok session => session.link number draft.handle (.handle draft.handle)
  | .splice number record =>
    match session.draft record with
    | (session, .error failure) => (session, .error (.failed failure))
    | (session, .ok draft) => session.splice number draft
  | .publish record =>
    match session.draft record with
    | (session, .error failure) => (session, .error (.failed failure))
    | (session, .ok draft) => session.settle (.handle draft.handle) (session.publishDraft draft)
  | .link number handle => session.link number handle .done
  | .has number key => session.ask number fun list nodes => do
    return .flag (← list.contains nodes session.shelf (← key.encode))
  | .hasRaw number internalKey => session.ask number fun list nodes => do
    return .flag (← list.contains nodes session.shelf internalKey)
  | .isEmpty number => session.ask number fun list _ => .ok (.flag list.isEmpty)
  | .handles number => session.ask number fun list nodes => do
    return .handles (← list.handles nodes)
  | .nodeCount => (session, .ok (.count session.sharedNodes))
  | .arenaSize => (session, .ok (.count session.shelf.arena.size))
  | .openCursor name number =>
    match session.find? number with
    | none => (session, .error (.failed .outOfRange))
    | some _ => ({ session with cursors := session.cursors.put name (number, none) }, .ok .done)
  | .cursor name command =>
    match session.cursors.find? name with
    | none => (session, .error .noCursor)
    | some (number, place) =>
      match session.find? number with
      | none => (session, .error (.failed .outOfRange))
      | some (list, _, nodes) =>
        let (place, reply) := (list.moves nodes session.shelf).execute place command
        ({ session with cursors := session.cursors.put name (number, place) },
          StepError.ofFailure (reply.map .cursor))

end SkipListSession

end WriteBuffer
