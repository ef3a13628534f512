import WriteBuffer.MemTable
import WriteBuffer.Session.Cursors
import WriteBuffer.Session.Named

/-!
Sessions with a table: inserts, reads, drafts and cursors that stay open while entries are inserted.
A session also remembers the memory at its last question about it, and whether the order of the
table has been consulted.
-/
namespace WriteBuffer

/-- A table with the drafts and cursors that were handed out, and a second arena, whose drafts the
table refuses. -/
structure TableSession where
  table : MemTable
  otherArena : Arena := { id := 1 }
  drafts : Named Draft := []
  cursors : Named TableCursor := []
  memoryAtStart : Nat := table.memory
  memoryBefore : Nat := table.memory
  consulted : Bool := false

/-- A step of a session with a table. -/
inductive TableCommand
  | add (record : Record)
  | addRaw (entry : Bytes)
  | allocate (name : String) (size : Nat)
  | allocateElsewhere (name : String) (size : Nat)
  | encode (name : String) (record : Record)
  | fill (name : String) (bytes : Bytes)
  | insert (name : String)
  | discard (name : String)
  | has (key : InternalKey)
  | hasRaw (internalKey : Bytes)
  | get (userKey : Bytes) (sequence : UInt64) (limit : Option Nat)
  | scan
  | scanBackward
  | openCursor (name : String) (range : MemTable.Range)
  | cursor (name : String) (command : CursorCommand)
  | close
  | isReadOnly
  | arenaSize
  | arenaMemory
  | arenaEntry (handle : Handle)
  | memory
  | consulted
  | identity
  | bucketCount
  | cuckooState
  | entriesForFlush
deriving DecidableEq, Repr

/-- An answer of a session with a table. -/
inductive TableReply
  | done
  | handle (handle : Handle)
  | flag (holds : Bool)
  | entries (entries : List Bytes)
  | cursor (reply : CursorReply)
  | arenaSize (size : Nat)
  | count (n : Nat)
  | bytes (bytes : Bytes)
  | memory (change : Ordering) (growth : Option Int)
  | identity (kind : TableKind) (merge snapshots : Bool)
  | cuckooState (hasBackup : Bool) (longestChain : Nat) (isReadOnly : Bool)
deriving DecidableEq, Repr

namespace MemTable

/-- The number of buckets or slots, of tables that have them. -/
def bucketCount? : MemTable → Option Nat
  | hashedSkipLists table => some table.index.buckets.size
  | hashedChains table => some table.index.heads.size
  | cuckoo table => some table.index.slots.size
  | skipList _ | vector _ => none

/-- Whether the growth of the table's memory does not hang on drawn heights. -/
def hasPlainMemory : MemTable → Bool
  | vector _ | hashedChains _ => true
  | _ => false

end MemTable

namespace TableSession

/-- Takes the table and the answer of an operation. -/
def took (session : TableSession) {α : Type} (reply : α → TableReply)
    (outcome : Outcome MemTable α) : Stepped TableSession TableReply :=
  ({ session with table := outcome.1 }, StepError.ofFailure (outcome.2.map reply))

/-- Changes a draft, which stays as it is left even if the change fails. -/
def onDraft (session : TableSession) (name : String) (change : Draft → Outcome Draft Unit) :
    Stepped TableSession TableReply :=
  match session.drafts.find? name with
  | none => (session, .error .noBuffer)
  | some draft =>
    let (draft, changed) := change draft
    ({ session with drafts := session.drafts.put name draft },
      StepError.ofFailure (changed.map fun _ => .done))

/-- Keeps a draft that was handed out. -/
def keepDraft (session : TableSession) (name : String) (allocated : Except Failure Draft) :
    Stepped TableSession TableReply :=
  match allocated with
  | .error failure => (session, .error (.failed failure))
  | .ok draft =>
    ({ session with drafts := session.drafts.put name draft }, .ok (.handle draft.handle))

/-- The visitor that stops when it has been shown a number of entries. -/
def upTo : Option Nat → List Bytes → Bool
  | none, _ => true
  | some limit, shown => shown.length < limit

/-- Carries out a step, whether or not the order is consulted. -/
def perform (session : TableSession) : TableCommand → Stepped TableSession TableReply
  | .add record => session.took .handle (session.table.add record)
  | .addRaw entry =>
    let (table, allocated) := session.table.allocate entry.length
    let session := { session with table }
    match allocated with
    | .error failure => (session, .error (.failed failure))
    | .ok draft =>
      session.took (fun _ => .handle draft.handle)
        (session.table.insert { draft with bytes := entry })
  | .allocate name size =>
    let (table, allocated) := session.table.allocate size
    keepDraft { session with table } name allocated
  | .allocateElsewhere name size =>
    let (otherArena, allocated) := session.otherArena.allocate size
    keepDraft { session with otherArena } name allocated
  | .encode name record => session.onDraft name fun draft =>
    (record.write draft.bytes).onState fun bytes => { draft with bytes }
  | .fill name bytes => session.onDraft name fun draft => commit draft (draft.fill bytes)
  | .insert name =>
    match session.drafts.find? name with
    | none => (session, .error .noBuffer)
    | some draft =>
      took { session with drafts := session.drafts.drop name } (fun _ => .done)
        (session.table.insert draft)
  | .discard name =>
    match session.drafts.find? name with
    | none => (session, .error .noBuffer)
    | some _ => ({ session with drafts := session.drafts.drop name }, .ok .done)
  | .has key =>
    match key.encode with
    | .error failure => (session, .error (.failed failure))
    | .ok internalKey => session.took .flag (session.table.contains internalKey)
  | .hasRaw internalKey => session.took .flag (session.table.contains internalKey)
  | .get userKey sequence limit =>
    match LookupKey.of userKey sequence with
    | .error failure => (session, .error (.failed failure))
    | .ok key => session.took .entries (session.table.get key (upTo limit))
  | .scan => session.took .entries session.table.scan
  | .scanBackward => session.took .entries session.table.scanBackward
  | .openCursor name range =>
    match session.table.openCursor range with
    | (table, .error failure) => ({ session with table }, .error (.failed failure))
    | (table, .ok cursor) =>
      ({ session with table, cursors := session.cursors.put name cursor }, .ok .done)
  | .cursor name command =>
    match session.cursors.find? name with
    | none => (session, .error .noCursor)
    | some cursor =>
      let (cursor, reply) := session.table.moves.execute cursor command
      ({ session with cursors := session.cursors.put name cursor },
        StepError.ofFailure (reply.map .cursor))
  | .close =>
    let (table, closed) := session.table.close
    session.took (fun _ => .flag table.isReadOnly) (table, closed)
  | .isReadOnly => (session, .ok (.flag session.table.isReadOnly))
  | .arenaSize => (session, .ok (.arenaSize session.table.arena.size))
  | .arenaMemory => (session, .ok (.count session.table.arena.memory))
  | .arenaEntry handle =>
    (session, StepError.ofFailure ((session.table.arena.get handle).map .bytes))
  | .memory =>
    let memory := session.table.memory
    let growth := (memory : Int) - session.memoryAtStart
    ({ session with memoryBefore := memory },
      .ok (.memory (compare memory session.memoryBefore)
        (if session.table.hasPlainMemory then some growth else none)))
  | .consulted => ({ session with consulted := false }, .ok (.flag session.consulted))
  | .identity =>
    let table := session.table
    (session, .ok (.identity table.kind table.supportsMerge table.supportsSnapshots))
  | .bucketCount =>
    (session, match session.table.bucketCount? with
      | some count => .ok (.count count)
      | none => .error .unsupported)
  | .cuckooState =>
    (session, match session.table with
      | .cuckoo table =>
        .ok (.cuckooState table.index.backup.isSome table.index.longestChain table.isReadOnly)
      | _ => .error .unsupported)
  | .entriesForFlush =>
    (session, match session.table with
      | .cuckoo table =>
        StepError.ofFailure ((CuckooTable.entriesForFlush table).map .entries)
      | _ => .error .unsupported)

/-- Whether a step consults the order of the table. -/
def consults (session : TableSession) (command : TableCommand) : Bool :=
  let refusing := { session with table := session.table.withOrder .refusing }
  match (refusing.perform command).2 with
  | .error (.failed .orderConsulted) => true
  | _ => false

/-- Carries out a step and remembers whether it consulted the order. -/
def execute (session : TableSession) (command : TableCommand) :
    Stepped TableSession TableReply :=
  let asked := session.consults command
  let (session, reply) := session.perform command
  ({ session with consulted := session.consulted || asked }, reply)

end TableSession

end WriteBuffer
