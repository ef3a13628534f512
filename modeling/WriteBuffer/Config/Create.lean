import WriteBuffer.Config.Basic
import WriteBuffer.Hash.Xxh3
import WriteBuffer.MemTable

/-!
Making tables from checked configurations. Every table made from one configuration has the same
options; the tables with buckets need a rule for grouping user keys. Hashes and tower heights come from
outside.
-/
namespace WriteBuffer

/-- Why no table was made. -/
inductive CreateError
  | missingRule (kind : TableKind)
  | failed (failure : Failure)
deriving DecidableEq, Repr

def missingRuleMessage (kind : TableKind) : String :=
  kind.factoryName ++ " requires a prefix extractor"

/-- Turns the failure of a making into its reason. -/
def CreateError.ofFailure {α : Type} : Except Failure α → Except CreateError α
  | .ok made => .ok made
  | .error failure => .error (.failed failure)

/-- Where tables have their hashes and tower heights from: the hash of groups, the hashes of keys by
their seeds, and the heights that are drawn for a branching factor. -/
structure Sources where
  groupHash : Bytes → UInt64 := Xxh3.hash 0
  keyHash : UInt64 → Bytes → UInt64 := Xxh3.hash
  heights : Nat → Heights := geometricHeights

namespace MemTable

def newSkipList (shelf : Shelf) (sources : Sources := {}) : MemTable :=
  skipList (SkipTable.create shelf (sources.heights SkipIndex.branching))

def newVector (shelf : Shelf) (count : Nat) : Except Failure MemTable := do
  return vector (← VectorTable.create shelf count)

def newHashedSkipLists (shelf : Shelf) (rule : PrefixRule) (buckets maxHeight branching : Nat)
    (sources : Sources := {}) : Except Failure MemTable := do
  return hashedSkipLists (← HashedSkipTable.create shelf ⟨rule, sources.groupHash⟩
    (sources.heights branching) buckets maxHeight branching)

def newHashedChains (shelf : Shelf) (rule : PrefixRule) (buckets hugePageSize : Nat)
    (sources : Sources := {}) : Except Failure MemTable := do
  return hashedChains (← HashedChainTable.create shelf ⟨rule, sources.groupHash⟩ buckets hugePageSize)

def newCuckoo (shelf : Shelf) (slots hashCount : Nat) (sources : Sources := {}) :
    Except Failure MemTable := do
  return cuckoo (← CuckooTable.create shelf sources.keyHash (sources.heights SkipIndex.branching)
    slots hashCount)

end MemTable

namespace Factory

/-- Finds the rule of a table that needs one. -/
def requireRule (factory : Factory) (rule : Option PrefixRule) : Except CreateError PrefixRule :=
  match rule with
  | some rule => .ok rule
  | none => .error (.missingRule factory.config.kind)

/-- Makes a table and reports its making. -/
def create (factory : Factory) (shelf : Shelf) (rule : Option PrefixRule)
    (sources : Sources := {}) : Except CreateError MemTable := do
  let (event, made) ← match factory.config with
    | .skipList => pure (Event.creatingSkipList, .ok (MemTable.newSkipList shelf sources))
    | .vector count => pure (.creatingVector count, MemTable.newVector shelf count.toNat)
    | .hashedSkipLists options => do
      let rule ← factory.requireRule rule
      pure (
        .creatingHashedSkipLists rule.name options.bucketCount options.height options.branching,
        MemTable.newHashedSkipLists shelf rule options.bucketCount.toNat options.height.toNat
          options.branching.toNat sources)
    | .hashedChains options => do
      let rule ← factory.requireRule rule
      pure (.creatingHashedChains rule.name options.bucketCount,
        MemTable.newHashedChains shelf rule options.bucketCount.toNat options.hugePageSize.toNat
          sources)
    | .cuckoo options =>
      pure (.creatingCuckoo, do
        MemTable.newCuckoo shelf (← options.slotCount) options.hashCount.toNat sources)
  let table ← CreateError.ofFailure made
  return table.withEarlierEvents [event]

end Factory

end WriteBuffer
