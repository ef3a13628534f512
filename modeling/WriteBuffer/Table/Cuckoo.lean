import WriteBuffer.Sorting
import WriteBuffer.Table.Displacement
import WriteBuffer.Table.Skip

/-!
Tables that give every user key one slot, chosen among a few by hashing, and keep only its latest
version. When no chain of moves makes room for a new key, its entry goes to a backup skip list and
the table turns read-only, so the backup never holds a second entry.
-/
namespace WriteBuffer

/-- Slots with the handles of the latest versions. -/
structure CuckooIndex where
  hash : UInt64 → Bytes → UInt64
  hashCount : Nat
  slots : Sparse Handle
  heights : Heights
  backup : Option SkipIndex := none
  longestChain : Nat := 0

namespace CuckooIndex

/-- The slots that a user key may have, in order of preference. -/
def candidates (index : CuckooIndex) (userKey : Bytes) : Except Failure (List Nat) :=
  if index.slots.size = 0 ∧ index.hashCount ≠ 0 then .error .noBuckets
  else .ok ((List.range index.hashCount).map fun seed =>
    (index.hash (UInt64.ofNat seed) userKey).toNat % index.slots.size)

def isFull (index : CuckooIndex) (slot : Nat) : Bool := (index.slots.get? slot).isSome

def slotSize : Nat := 4

def memory (index : CuckooIndex) : Nat :=
  slotSize * index.slots.size + index.backup.elim 0 SkipIndex.memory

end CuckooIndex

/-- A table that keeps the latest version of each user key in a slot. -/
abbrev CuckooTable := Table CuckooIndex

namespace CuckooTable

/-- A table of no entries. -/
def create (shelf : Shelf) (hash : UInt64 → Bytes → UInt64) (heights : Heights)
    (slots hashCount : Nat) : Except Failure CuckooTable := do
  requireAllocatable slots CuckooIndex.slotSize
  return {
    shelf
    log := [.creatingCuckooTable slots hashCount]
    index := { hash, hashCount, slots := .empty slots, heights } }

def entryAt (table : CuckooTable) (slot : Nat) : Except Failure (Option Bytes) :=
  match table.index.slots.get? slot with
  | none => .ok none
  | some handle => (table.shelf.arena.get handle).map some

/-- The first of some slots with an entry that passes a test, and the entry. -/
def findSlot (table : CuckooTable) (test : Bytes → Except Failure Bool) :
    List Nat → Except Failure (Option (Nat × Bytes))
  | [] => .ok none
  | slot :: rest => do
    match ← table.entryAt slot with
    | none => findSlot table test rest
    | some entry => if ← test entry then return some (slot, entry) else findSlot table test rest

/-- The slot of a user key and the entry in it. -/
def findUserKey (table : CuckooTable) (userKey : Bytes) :
    Except Failure (Option (Nat × Bytes)) := do
  table.findSlot (fun entry => do return (← entryUserKey entry) == userKey)
    (← table.index.candidates userKey)

/-- The slots that the occupant of a slot may have. -/
def choices (table : CuckooTable) (slot : Nat) : Except Failure (List Nat) := do
  match ← table.entryAt slot with
  | none => return []
  | some entry => table.index.candidates (← entryUserKey entry)

def withSlots (table : CuckooTable) (slots : Sparse Handle) : CuckooTable :=
  { table with index := { table.index with slots } }

/-- Gives a published entry a slot: that of its user key, an empty one, or one made empty by moving
others. Yields nothing when there is none. -/
def settle (table : CuckooTable) (handle : Handle) : Except Failure (Option CuckooTable) := do
  let userKey ← entryUserKey (← table.shelf.arena.get handle)
  match ← table.findUserKey userKey with
  | some (slot, _) => return some (withSlots table (table.index.slots.put slot handle))
  | none =>
    let candidates ← table.index.candidates userKey
    match candidates.find? (!table.index.isFull ·) with
    | some slot => return some (withSlots table (table.index.slots.put slot handle))
    | none =>
      match ← findRoom table.index.isFull (choices table) candidates with
      | none => return none
      | some (path, empty) =>
        let moved := withSlots table (displace table.index.slots handle path empty)
        let longestChain := max moved.index.longestChain path.length
        return some { moved with index := { moved.index with longestChain } }

/-- Puts a published entry into a backup skip list and makes the table read-only. -/
def spill (table : CuckooTable) (handle : Handle) : Except Failure CuckooTable := do
  let table := table.report (.spilling table.index.slots.size maxDisplacements)
  let backup ← (SkipIndex.empty table.index.heights).link table.shelf handle
  let spilled := { table with index := { table.index with backup := some backup } }
  return (spilled.report (.nowReadOnly .skipList)).close .cuckoo

/-- Fails if the latest version of an entry's user key has an equal internal key. -/
def refuseRepeated (table : CuckooTable) (entry : Bytes) : Except Failure Unit := do
  if let some (_, existing) ← table.findUserKey (← entryUserKey entry) then
    if (← table.shelf.order.compareEntries existing entry) == .eq then
      throw (.duplicateKey .cuckooTable)

/-- Puts a published entry into a slot, or else into the backup. -/
def house (table : CuckooTable) (handle : Handle) : Except Failure CuckooTable := do
  match ← settle table handle with
  | some settled => return settled
  | none => spill table handle

/-- Publishes an entry and makes it the latest version of its user key, unless the one before it has
an equal internal key. -/
def insert (draft : Draft) : CuckooTable → Outcome CuckooTable Unit :=
  Table.asWriter .cuckoo <| Table.takeIn draft (refuseRepeated · draft.bytes)
    fun _ table => house table draft.handle

/-- Whether the table has an entry with an internal key equal to the given one. -/
def contains (table : CuckooTable) (internalKey : Bytes) : Except Failure Bool := do
  let candidates ← table.index.candidates (← userKeyOf internalKey)
  let isEqual entry := do
    return (← table.shelf.order.compareEntryKey entry internalKey) == .eq
  if (← table.findSlot isEqual candidates).isSome then return true
  match table.index.backup with
  | none => return false
  | some backup => backup.list.contains backup.nodes table.shelf internalKey

/-- The entries that a visitor sees: the latest version of the user key if it has a slot, whatever
its sequence number, and else what the backup shows from the lookup key on. -/
def get (table : CuckooTable) (userKey internalKey : Bytes) (goesOn : List Bytes → Bool) :
    Except Failure (List Bytes) := do
  match ← table.findUserKey userKey with
  | some (_, entry) => return [entry]
  | none =>
    match table.index.backup with
    | none => return []
    | some backup => (backup.moves table.shelf).visitFrom none internalKey goesOn

/-- All entries in order, once the table is read-only. -/
def entriesForFlush (table : CuckooTable) : Except Failure (List Bytes) := do
  if !table.isReadOnly then throw .flushBeforeReadOnly
  let spilled ← match table.index.backup with
    | none => pure []
    | some backup => backup.list.handles backup.nodes
  let handles ← sortStable table.shelf.compareHandles (table.index.slots.values ++ spilled)
  handles.mapM table.shelf.arena.get

end CuckooTable

end WriteBuffer
