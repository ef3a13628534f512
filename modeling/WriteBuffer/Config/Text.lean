import WriteBuffer.Config.Basic
import WriteBuffer.Text.Blank
import WriteBuffer.Text.Decimal

/-!
Configurations as text: a word for the kind of table and numbers behind colons. When written,
trailing numbers that have their default are left out.
-/
namespace WriteBuffer.TableConfig

/-- The words for the kinds of tables. -/
def word : TableKind → List Char
  | .skipList => "skip_list".toList
  | .vector => "vector".toList
  | .hashedSkipLists => "prefix_hash".toList
  | .hashedChains => "hash_linkedlist".toList
  | .cuckoo => "cuckoo".toList

/-- The kind of table that a word stands for. -/
def kindOf? (text : List Char) : Option TableKind :=
  [.skipList, .vector, .hashedSkipLists, .hashedChains, .cuckoo].find? fun kind =>
    word kind == text

/-- Reads a number, below a limit, with blanks around it. -/
def number (kind : TableKind) (limit : Nat) (field : List Char) : Except ConfigError Nat :=
  match Text.below? limit (Text.trim field) with
  | some n => .ok n
  | none => .error (.badNumber (word kind) field)

/-- Reads a 64-bit number. -/
def size (kind : TableKind) (field : List Char) : Except ConfigError UInt64 :=
  (number kind UInt64.size field).map UInt64.ofNat

/-- Reads a 32-bit number. -/
def factor (kind : TableKind) (field : List Char) : Except ConfigError UInt32 :=
  (number kind UInt32.size field).map UInt32.ofNat

/-- Reads the options of a kind of table from its fields, if there are as many as it may have. -/
def ofFields? (kind : TableKind) (fields : List (List Char)) :
    Option (Except ConfigError TableConfig) :=
  match kind, fields with
  | .skipList, [] => some (.ok .skipList)
  | .vector, [] => some (.ok (.vector 0))
  | .vector, [count] => some do return .vector (← size kind count)
  | .hashedSkipLists, [] => some (.ok (.hashedSkipLists {}))
  | .hashedSkipLists, [buckets] => some do
    return .hashedSkipLists { bucketCount := ← size kind buckets }
  | .hashedSkipLists, [buckets, height, branching] => some do
    return .hashedSkipLists {
      bucketCount := ← size kind buckets
      height := ← size kind height
      branching := ← factor kind branching }
  | .hashedChains, [] => some (.ok (.hashedChains {}))
  | .hashedChains, [buckets] => some do
    return .hashedChains { bucketCount := ← size kind buckets }
  | .hashedChains, [buckets, page] => some do
    return .hashedChains { bucketCount := ← size kind buckets, hugePageSize := ← size kind page }
  | .cuckoo, [] => some (.error .noWriteBufferSize)
  | .cuckoo, [buffer] => some do return .cuckoo { writeBufferSize := ← size kind buffer }
  | .cuckoo, [buffer, average] => some do
    return .cuckoo { writeBufferSize := ← size kind buffer, averageDataSize := ← size kind average }
  | .cuckoo, [buffer, average, hashes] => some do
    return .cuckoo {
      writeBufferSize := ← size kind buffer
      averageDataSize := ← size kind average
      hashCount := ← size kind hashes }
  | _, _ => none

/-- Reads a configuration. -/
def parse (text : List Char) : Except ConfigError TableConfig :=
  match (Text.trim text).splitOn ':' with
  | [] => .error (.unknownTable text)
  | first :: fields =>
    match (kindOf? (Text.trim first)).bind (ofFields? · fields) with
    | some read => read
    | none => .error (.unknownTable text)

/-- The numbers that are written for a configuration. -/
def fields : TableConfig → List Nat
  | skipList => []
  | vector count => [count.toNat]
  | hashedSkipLists options =>
    let defaults : HashedSkipOptions := {}
    options.bucketCount.toNat ::
      if options.height = defaults.height ∧ options.branching = defaults.branching then []
      else [options.height.toNat, options.branching.toNat]
  | hashedChains options =>
    options.bucketCount.toNat ::
      if options.hugePageSize = 0 then [] else [options.hugePageSize.toNat]
  | cuckoo options =>
    let defaults : CuckooOptions := { writeBufferSize := options.writeBufferSize }
    options.writeBufferSize.toNat ::
      if options.hashCount ≠ defaults.hashCount then
        [options.averageDataSize.toNat, options.hashCount.toNat]
      else if options.averageDataSize ≠ defaults.averageDataSize then
        [options.averageDataSize.toNat]
      else []

def print (config : TableConfig) : List Char :=
  word config.kind ++ config.fields.flatMap fun n => ':' :: Text.decimal n

end WriteBuffer.TableConfig
