import WriteBuffer.Failure

/-!
What a table reports while it works: its making, its turning read-only, a sort, an overflow. Every
event has a level and named fields; `message` is the field that says what happened.
-/
namespace WriteBuffer

/-- How much an event matters. -/
inductive Level
  | debug
  | warn
deriving DecidableEq, Repr

def Level.name : Level → String
  | debug => "DEBUG"
  | warn => "WARN"

/-- Something that a table reports. -/
inductive Event
  | creatingSkipList
  | creatingVector (count : UInt64)
  | creatingHashedSkipLists (rule : String) (buckets height : UInt64) (branching : UInt32)
  | creatingHashedChains (rule : String) (buckets : UInt64)
  | creatingCuckoo
  | creatingCuckooTable (slots hashes : Nat)
  | hashCountClamped (requested used : UInt64)
  | hugePagesUnavailable (pageSize bucketBytes : Nat)
  | nowReadOnly (table : TableKind)
  | stillReadOnly (table : TableKind)
  | sorted (entries : Nat)
  | spilling (slots depth : Nat)
deriving DecidableEq, Repr

namespace Event

/-- The level of an event: what costs speed or entries is a warning. -/
def level : Event → Level
  | hashCountClamped .. | hugePagesUnavailable .. | spilling .. => .warn
  | _ => .debug

/-- The name and the message of the making of a table. -/
def creation (kind : TableKind) : List (String × String) :=
  [("factory", kind.factoryName), ("message", "creating memtable rep")]

/-- The fields of an event, in no particular order. -/
def fields : Event → List (String × String)
  | creatingSkipList => creation .skipList
  | creatingVector count => ("count", toString count.toNat) :: creation .vector
  | creatingHashedSkipLists rule buckets height branching =>
    [("transform", rule), ("bucket_count", toString buckets.toNat),
      ("height", toString height.toNat), ("branching", toString branching.toNat)]
      ++ creation .hashedSkipLists
  | creatingHashedChains rule buckets =>
    [("transform", rule), ("bucket_count", toString buckets.toNat)] ++ creation .hashedChains
  | creatingCuckoo => creation .cuckoo
  | creatingCuckooTable slots hashes =>
    [("bucket_count", toString slots), ("hash_function_count", toString hashes),
      ("message", "creating cuckoo table")]
  | hashCountClamped requested used =>
    [("requested", toString requested.toNat), ("using", toString used.toNat),
      ("message", "cuckoo hash_function_count out of range")]
  | hugePagesUnavailable pageSize bucketBytes =>
    [("huge_page_tlb_size", toString pageSize), ("bucket_bytes", toString bucketBytes),
      ("message",
        "huge page TLB mapping unavailable, bucket array allocated from the heap")]
  | nowReadOnly table =>
    [("rep", table.name), ("message", "memtable rep is now read-only")]
  | stillReadOnly table =>
    [("rep", table.name), ("message", "rep already read-only, ignoring mark_read_only")]
  | sorted entries => [("entries", toString entries), ("message", "vector rep sorted")]
  | spilling slots depth =>
    [("buckets", toString slots), ("max_depth", toString depth),
      ("message",
        "cuckoo table full, spilling to backup skip list and turning read-only")]

def sortedFields (event : Event) : List (String × String) :=
  event.fields.mergeSort fun a b => a.1 ≤ b.1

end Event

end WriteBuffer
