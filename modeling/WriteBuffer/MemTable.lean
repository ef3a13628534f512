import WriteBuffer.Table.Cuckoo
import WriteBuffer.Table.HashedChain
import WriteBuffer.Table.HashedSkip
import WriteBuffer.Table.Vector

/-!
The tables behind one interface. Entries are inserted and never removed; a table tells whether it
has an internal key, shows the versions of a user key, and hands out cursors over all its entries,
over those that share a bucket with a user key, and within groups of user keys. A cuckoo table has
no order and hands out none.
-/
namespace WriteBuffer

/-- Changes the state that an operation leaves behind. -/
def Outcome.onState {σ τ α : Type} (f : σ → τ) (outcome : Outcome σ α) : Outcome τ α :=
  (f outcome.1, outcome.2)

/-- A table of one of the five kinds. -/
inductive MemTable
  | skipList (table : SkipTable)
  | vector (table : VectorTable)
  | hashedSkipLists (table : HashedSkipTable)
  | hashedChains (table : HashedChainTable)
  | cuckoo (table : CuckooTable)

namespace MemTable

/-- The kind of a table. -/
def kind : MemTable → TableKind
  | skipList _ => .skipList
  | vector _ => .vector
  | hashedSkipLists _ => .hashedSkipLists
  | hashedChains _ => .hashedChains
  | cuckoo _ => .cuckoo

/-- Reads what all tables have. -/
def read {α : Type} (f : {ι : Type} → Table ι → α) : MemTable → α
  | skipList table => f table
  | vector table => f table
  | hashedSkipLists table => f table
  | hashedChains table => f table
  | cuckoo table => f table

/-- Changes what all tables have. -/
def modify (f : {ι : Type} → Table ι → Table ι) : MemTable → MemTable
  | skipList table => skipList (f table)
  | vector table => vector (f table)
  | hashedSkipLists table => hashedSkipLists (f table)
  | hashedChains table => hashedChains (f table)
  | cuckoo table => cuckoo (f table)

def shelf (table : MemTable) : Shelf := table.read Table.shelf

def arena (table : MemTable) : Arena := table.shelf.arena

def log (table : MemTable) : List Event := table.read Table.log

def isReadOnly (table : MemTable) : Bool := table.read Table.isReadOnly

def withOrder (order : KeyOrder) (table : MemTable) : MemTable :=
  table.modify (Table.withOrder order)

/-- The table with events put in front of its log. -/
def withEarlierEvents (events : List Event) (table : MemTable) : MemTable :=
  table.modify fun table => { table with log := events ++ table.log }

/-- Whether reads can combine merge operands: only a table that keeps all versions can. -/
def supportsMerge : MemTable → Bool
  | cuckoo _ => false
  | _ => true

/-- Whether reads can look at the past: only a table that keeps all versions can. -/
def supportsSnapshots : MemTable → Bool
  | cuckoo _ => false
  | _ => true

/-- The memory taken by the arrangement of the entries, a fixed part of each table apart. -/
def memory : MemTable → Nat
  | skipList table => table.index.memory
  | vector table => table.index.memory
  | hashedSkipLists table => table.index.memory
  | hashedChains table => table.index.memory
  | cuckoo table => table.index.memory

/-- Hands out a draft for an entry of a given size. -/
def allocate (table : MemTable) (size : Nat) : Outcome MemTable Draft :=
  let (arena, allocated) := table.arena.allocate size
  (table.modify fun table => { table with shelf := { table.shelf with arena } }, allocated)

/-- Publishes a draft and takes it in as an entry. -/
def insert (table : MemTable) (draft : Draft) : Outcome MemTable Unit :=
  match table with
  | skipList table => (SkipTable.insert draft table).onState skipList
  | vector table => (VectorTable.insert draft table).onState vector
  | hashedSkipLists table => (HashedSkipTable.insert draft table).onState hashedSkipLists
  | hashedChains table => (HashedChainTable.insert draft table).onState hashedChains
  | cuckoo table => (CuckooTable.insert draft table).onState cuckoo

/-- Writes a record into a draft of the right size and inserts it. The handle of the draft stays
taken if that fails. -/
def add (table : MemTable) (record : Record) : Outcome MemTable Handle :=
  match table.allocate record.size with
  | (table, .error failure) => (table, .error failure)
  | (table, .ok draft) =>
    match record.write draft.bytes with
    | (_, .error failure) => (table, .error failure)
    | (bytes, .ok ()) =>
      let (table, inserted) := table.insert { draft with bytes }
      (table, inserted.map fun _ => draft.handle)

/-- Whether the table has an entry with an internal key equal to the given one. -/
def contains (internalKey : Bytes) : MemTable → Outcome MemTable Bool
  | skipList table => (skipList table, SkipTable.contains table internalKey)
  | vector table => (VectorTable.contains table internalKey).onState vector
  | hashedSkipLists table => (hashedSkipLists table, HashedSkipTable.contains table internalKey)
  | hashedChains table => (hashedChains table, HashedChainTable.contains table internalKey)
  | cuckoo table => (cuckoo table, CuckooTable.contains table internalKey)

/-- Makes the table read-only. -/
def close : MemTable → Outcome MemTable Unit
  | skipList table => (skipList (Table.close .skipList table), .ok ())
  | vector table => (VectorTable.close table).onState vector
  | hashedSkipLists table => (hashedSkipLists (Table.close .hashedSkipLists table), .ok ())
  | hashedChains table => (hashedChains (Table.close .hashedChains table), .ok ())
  | cuckoo table => (cuckoo (Table.close .cuckoo table), .ok ())

/-- The moves of cursors within groups and along buckets, for tables with buckets. -/
def bucketMoves (shelf : Shelf) (rule : PrefixRule) (lists : Nat → Moves (Option NodeId))
    (openBucket : Bytes → Except Failure (Option BucketCursor)) : Moves TableCursor :=
  let buckets := BucketCursor.moves lists
  TableCursor.moves (RunCursor.moves shelf) buckets (GroupCursor.moves rule openBucket buckets)

/-- The moves of the cursors that a table hands out. -/
def moves (table : MemTable) : Moves TableCursor :=
  match table with
  | skipList list =>
    bucketMoves list.shelf .whole (fun _ => SkipTable.moves list) fun _ => .ok none
  | hashedSkipLists lists =>
    bucketMoves lists.shelf lists.index.placement.rule (HashedSkipTable.listMoves lists)
      (HashedSkipTable.bucketCursor lists)
  | hashedChains chains =>
    bucketMoves chains.shelf chains.index.placement.rule (HashedChainTable.listMoves chains)
      (HashedChainTable.bucketCursor chains)
  | vector _ | cuckoo _ =>
    let list : SkipList := { head := [none] }
    bucketMoves table.shelf .whole (fun _ => list.moves .empty table.shelf) fun _ => .ok none

/-- Which entries a cursor is to range over. -/
inductive Range
  | all
  | bucketOf (userKey : Bytes)
  | groups
deriving DecidableEq, Repr

/-- Hands out a cursor that is at no entry yet. Tables without buckets range over all entries. -/
def openCursor (range : Range) : MemTable → Outcome MemTable TableCursor
  | skipList table => (skipList table, .ok (.list {}))
  | vector table =>
    let (table, cursor) := VectorTable.cursor table
    (vector table, cursor.map .run)
  | hashedSkipLists table =>
    (hashedSkipLists table, match range with
      | .all => do return .run { handles := ← HashedSkipTable.sortedHandles table }
      | .bucketOf userKey => do
        return (← HashedSkipTable.bucketCursor table userKey).elim .nothing .list
      | .groups => .ok (.group {}))
  | hashedChains table =>
    (hashedChains table, match range with
      | .all => do return .run { handles := ← HashedChainTable.sortedHandles table }
      | .bucketOf userKey => do
        return (← HashedChainTable.bucketCursor table userKey).elim .nothing .list
      | .groups => .ok (.group {}))
  | cuckoo table => (cuckoo table, .error .unordered)

/-- The entries that a visitor sees when it is shown the table from a lookup key on. -/
def get (table : MemTable) (key : LookupKey) (goesOn : List Bytes → Bool) :
    Outcome MemTable (List Bytes) :=
  match key.userKey with
  | .error failure => (table, .error failure)
  | .ok userKey =>
    match table with
    | cuckoo slots => (table, CuckooTable.get slots userKey key.internalKey goesOn)
    | _ =>
      let (table, opened) := openCursor (.bucketOf userKey) table
      (table, do table.moves.visitFrom (← opened) key.internalKey goesOn)

def scan (table : MemTable) : Outcome MemTable (List Bytes) :=
  let (table, opened) := openCursor .all table
  (table, do (table.moves.walkForward (← table.moves.first (← opened))).2)

def scanBackward (table : MemTable) : Outcome MemTable (List Bytes) :=
  let (table, opened) := openCursor .all table
  (table, do (table.moves.walkBackward (← table.moves.last (← opened))).2)

end MemTable

end WriteBuffer
