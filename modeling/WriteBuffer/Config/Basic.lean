import WriteBuffer.Allocation
import WriteBuffer.Table.Event
import WriteBuffer.Text.Quoted

/-!
The choice of a table and its options, and the check that the options can be used. The number of
slots of a cuckoo table is derived from the sizes it is to hold.
-/
namespace WriteBuffer

/-- Options of a table with a skip list in each bucket. -/
structure HashedSkipOptions where
  bucketCount : UInt64 := 1000000
  height : UInt64 := 4
  branching : UInt32 := 4
deriving DecidableEq, Repr

/-- Options of a table with a chain in each bucket. -/
structure HashedChainOptions where
  bucketCount : UInt64 := 50000
  hugePageSize : UInt64 := 0
deriving DecidableEq, Repr

/-- Options of a cuckoo table. -/
structure CuckooOptions where
  writeBufferSize : UInt64
  averageDataSize : UInt64 := 64
  hashCount : UInt64 := 4
deriving DecidableEq, Repr

/-- A kind of table with its options. -/
inductive TableConfig
  | skipList
  | vector (count : UInt64)
  | hashedSkipLists (options : HashedSkipOptions)
  | hashedChains (options : HashedChainOptions)
  | cuckoo (options : CuckooOptions)
deriving DecidableEq, Repr

/-- The kind of table that a configuration chooses. -/
def TableConfig.kind : TableConfig → TableKind
  | skipList => .skipList
  | vector _ => .vector
  | hashedSkipLists _ => .hashedSkipLists
  | hashedChains _ => .hashedChains
  | cuckoo _ => .cuckoo

/-- What is wrong with a configuration or its text. -/
inductive ConfigError
  | unknownTable (text : List Char)
  | badNumber (kind field : List Char)
  | noWriteBufferSize
  | noBuckets
  | heightOutside (height : UInt64)
  | branchingBelowTwo (branching : UInt32)
  | pageSizeNotPower (size : UInt64)
  | zeroWriteBufferSize
  | zeroAverageDataSize
deriving DecidableEq, Repr

/-- The words for what is wrong with a configuration. -/
def ConfigError.message (error : ConfigError) : String :=
  "invalid memtable config: " ++ match error with
  | unknownTable text => "unknown memtable rep " ++ String.ofList (Text.quoted text)
  | badNumber kind field =>
    String.ofList kind ++ ": bad number " ++ String.ofList (Text.quoted field)
  | noWriteBufferSize => "cuckoo requires a write buffer size (cuckoo:<bytes>)"
  | noBuckets => "bucket_count must be positive"
  | heightOutside height =>
    "skiplist_height " ++ toString height.toNat ++ " outside 1..=32"
  | branchingBelowTwo branching =>
    "skiplist_branching_factor " ++ toString branching.toNat ++ " must be at least 2"
  | pageSizeNotPower size =>
    "huge_page_tlb_size " ++ toString size.toNat ++ " is not a power of two"
  | zeroWriteBufferSize => "write_buffer_size must be positive"
  | zeroAverageDataSize => "average_data_size must be positive"

namespace HashedSkipOptions

/-- Refuses options with which no table can be made. -/
def check (options : HashedSkipOptions) : Except ConfigError Unit := do
  if options.bucketCount = 0 then throw .noBuckets
  if options.height < 1 ∨ 32 < options.height then throw (.heightOutside options.height)
  if options.branching < 2 then throw (.branchingBelowTwo options.branching)

end HashedSkipOptions

namespace HashedChainOptions

/-- Refuses options with which no table can be made. -/
def check (options : HashedChainOptions) : Except ConfigError Unit := do
  if options.bucketCount = 0 then throw .noBuckets
  let size := options.hugePageSize
  if size ≠ 0 ∧ size &&& (size - 1) ≠ 0 then throw (.pageSizeNotPower size)

end HashedChainOptions

namespace CuckooOptions

def minHashCount : UInt64 := 2

def maxHashCount : UInt64 := 10

/-- Refuses options with which no table can be made. -/
def check (options : CuckooOptions) : Except ConfigError Unit := do
  if options.writeBufferSize = 0 then throw .zeroWriteBufferSize
  if options.averageDataSize = 0 then throw .zeroAverageDataSize

/-- The options with the number of hash functions brought into its range. -/
def clamped (options : CuckooOptions) : CuckooOptions :=
  { options with hashCount := max minHashCount (min maxHashCount options.hashCount) }

/-- The share of the slots that is expected to be filled. -/
def occupancy : Float := 0.7

/-- The slots for a write buffer full of entries of a size, some of them left empty. -/
def slotsFor (options : CuckooOptions) (entryBytes : Nat) : Nat :=
  let entries := UInt64.ofNat (options.writeBufferSize.toNat / entryBytes)
  (entries.toFloat / occupancy).toUInt64.toNat

/-- The number of slots that leaves enough of them empty when the write buffer is full, an entry
taking its average size and the four bytes of its slot. -/
def slotCount (options : CuckooOptions) : Except Failure Nat := do
  let entryBytes ← checkedSum options.averageDataSize.toNat 4
  checkedSum (options.slotsFor entryBytes) 1

end CuckooOptions

/-- A configuration with usable options, and what was reported while they were checked. -/
structure Factory where
  config : TableConfig
  log : List Event := []
deriving DecidableEq, Repr

/-- Checks the options of a configuration and brings them into their ranges. -/
def TableConfig.build (config : TableConfig) : Except ConfigError Factory :=
  match config with
  | skipList | vector _ => .ok { config }
  | hashedSkipLists options => do
    options.check
    return { config }
  | hashedChains options => do
    options.check
    return { config }
  | cuckoo options => do
    options.check
    let used := options.clamped
    return {
      config := .cuckoo used
      log := if used = options then []
        else [.hashCountClamped options.hashCount used.hashCount] }

end WriteBuffer
