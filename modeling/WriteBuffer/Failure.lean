/-!
The ways in which an operation of the write buffer breaks off. A cause with a message is a broken
rule of use; a cause without one is a computation that has no result, such as a read past the end
of a byte string.
-/
namespace WriteBuffer

/-- The five strategies for holding the entries of a write buffer. -/
inductive TableKind
  | skipList
  | vector
  | hashedSkipLists
  | hashedChains
  | cuckoo
deriving DecidableEq, Repr

/-- The name under which a table of this kind reports itself. -/
def TableKind.name : TableKind → String
  | skipList => "SkipListRep"
  | vector => "VectorRep"
  | hashedSkipLists => "HashSkipListRep"
  | hashedChains => "HashLinkListRep"
  | cuckoo => "HashCuckooRep"

/-- The name under which the factory of this kind of table reports itself. -/
def TableKind.factoryName : TableKind → String
  | skipList => "SkipListFactory"
  | vector => "VectorRepFactory"
  | hashedSkipLists => "HashSkipListRepFactory"
  | hashedChains => "HashLinkListRepFactory"
  | cuckoo => "HashCuckooRepFactory"

/-- The structure in which an entry with an equal key was met. -/
inductive DuplicatePlace
  | skipList
  | chain
  | cuckooTable
deriving DecidableEq, Repr

/-- Why an operation broke off. -/
inductive Failure
  /-- A byte, a slot or a numbered part outside its container was touched. -/
  | outOfRange
  /-- Bytes were copied onto a range of another length. -/
  | lengthMismatch
  /-- A size left the range of 64-bit numbers or of what one allocation may hold. -/
  | overflow
  /-- A key was to be placed among no buckets. -/
  | noBuckets
  | sequenceTooLarge (sequence : UInt64)
  | wrongBufferLength
  | foreignBuffer
  | unpublishedHandle (index : UInt32)
  | slotTaken (index : UInt32)
  | storeFull
  | unpositioned
  | duplicateKey (place : DuplicatePlace)
  | readOnly (table : TableKind)
  | secondWriter (table : TableKind)
  | alreadySorted
  | flushBeforeReadOnly
  | unordered
  | towerHeight
  | towerBranching
  | brokenTower (node : UInt32)
  | brokenChain (node : UInt32)
  /-- A chain of links was followed for more steps than there are nodes. -/
  | endlessChain
  /-- The key order was asked although it was not to be. -/
  | orderConsulted
deriving DecidableEq, Repr

/-- The words for a broken rule of use, and nothing for a computation without a result. -/
def Failure.message : Failure → Option String
  | outOfRange | lengthMismatch | overflow | noBuckets | endlessChain | orderConsulted => none
  | sequenceTooLarge sequence =>
    some ("sequence number " ++ toString sequence.toNat ++ " exceeds 56 bits")
  | wrongBufferLength => some "entry buffer has the wrong length"
  | foreignBuffer => some "entry buffer was allocated by a different arena"
  | unpublishedHandle index =>
    some ("key handle " ++ toString index.toNat ++ " was never published")
  | slotTaken index => some ("slot " ++ toString index.toNat ++ " published twice")
  | storeFull => some "chunked vector is full"
  | unpositioned => some "iterator is not positioned at an entry"
  | duplicateKey .skipList => some "duplicate key inserted into skip list"
  | duplicateKey .chain => some "duplicate key inserted into link list bucket"
  | duplicateKey .cuckooTable => some "duplicate key inserted into cuckoo table"
  | readOnly table => some (table.name ++ ": insert after the rep became read-only")
  | secondWriter table => some (table.name ++ ": concurrent insert from a second writer")
  | alreadySorted => some "VectorRep: insert after the entries were sorted for reading"
  | flushBeforeReadOnly =>
    some "HashCuckooRep: entries_for_flush before the rep became read-only"
  | unordered => some "HashCuckooRep: ordered iteration is not supported"
  | towerHeight => some "skip list height must be in 1..=32"
  | towerBranching => some "skip list branching factor must be >= 2"
  | brokenTower node => some ("skip list link to unpublished node " ++ toString node.toNat)
  | brokenChain node => some ("link list points at unpublished node " ++ toString node.toNat)

/-- What an operation leaves behind: the state, and its answer or the reason for breaking off. -/
abbrev Outcome (σ α : Type) := σ × Except Failure α

/-- Takes the new state of a change that succeeded and keeps the old one otherwise. -/
def commit {σ : Type} (old : σ) : Except Failure σ → Outcome σ Unit
  | .ok new => (new, .ok ())
  | .error failure => (old, .error failure)

end WriteBuffer
