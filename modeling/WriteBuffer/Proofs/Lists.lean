import Mathlib
import WriteBuffer.Proofs.Cursor.Answers
import WriteBuffer.Proofs.VersionedReads

/-!
The lists of tables that link their entries. Such a table has one list for each bucket, or a single
one for all entries, in which the entries that it is for stand in order (`MemTable.Lists.mem_iff`); a
cursor along a list follows them (`MemTable.Lists.follows`). Whatever is done to the table, every row
of a list stays a row of it (`MemTable.Lists.perform`).
-/
namespace WriteBuffer

namespace MemTable

variable {order : KeyOrder} {placing : Option (Placement × Nat)} {taken : List Bytes}
  {keys : Bytes → Prop} {table : MemTable} {bucket : Nat} {rows : List Row} {entries : List Bytes}

/-- Whether the list of a bucket is the one for an entry. A table without buckets has one list. -/
def Covers (placing : Option (Placement × Nat)) (bucket : Nat) (entry : Bytes) : Prop :=
  ∀ {placement count}, placing = some (placement, count) →
    ∃ userKey, entryUserKey entry = .ok userKey ∧ placement.bucketOf count userKey = .ok bucket

/-- The list of a bucket has the given rows, which name the given entries. -/
def IndexLists (bucket : Nat) (rows : List Row) (entries taken : List Bytes) : MemTable → Prop
  | skipList table => table.index.Arranges table.shelf rows entries taken
  | hashedSkipLists table => ∃ all held, table.index.Arranges table.shelf all held taken ∧
      all bucket = rows ∧ held bucket = entries
  | hashedChains table => ∃ all held, table.index.Arranges table.shelf all held taken ∧
      all bucket = rows ∧ held bucket = entries
  | vector _ | cuckoo _ => False

/-- A table holds exactly what it took in, and the list of a bucket has the given rows, which name the
given entries. -/
structure Lists (table : MemTable) (order : KeyOrder) (placing : Option (Placement × Nat))
    (bucket : Nat) (rows : List Row) (entries taken : List Bytes) : Prop where
  order : table.shelf.order = order
  placing : table.placing = placing
  index : table.IndexLists bucket rows entries taken

/-- A table that links its entries has a list for every bucket. -/
theorem Holds.lists (holds : table.Holds order placing taken) (linked : table.kind ≠ .vector)
    (bucket : Nat) : ∃ rows entries, table.Lists order placing bucket rows entries taken := by
  obtain ⟨ordered, placed, index⟩ := holds
  cases table with
  | cuckoo table => exact index.elim
  | vector table => exact absurd rfl linked
  | skipList table =>
    obtain ⟨rows, entries, arranges⟩ := index
    exact ⟨rows, entries, ordered, placed, arranges⟩
  | hashedSkipLists table | hashedChains table =>
    obtain ⟨all, held, arranges⟩ := index
    exact ⟨all bucket, held bucket, ordered, placed, all, held, arranges, rfl, rfl⟩

namespace Lists

/-- The entries of a list are those that were taken in and that it is for. -/
theorem mem_iff (lists : table.Lists order placing bucket rows entries taken) {entry : Bytes} :
    entry ∈ entries ↔ entry ∈ taken ∧ Covers placing bucket entry := by
  obtain ⟨rfl, rfl, index⟩ := lists
  have ofBuckets : ∀ {β : Type} {placement : Placement} {slots : Sparse β}
      {linked : Nat → List Row → Prop} {all : Nat → List Row} {held : Nat → List Bytes},
      Arranged table.shelf placement slots linked all held taken →
      (entry ∈ held bucket ↔ entry ∈ taken ∧
        Covers (some (placement, slots.size)) bucket entry) := by
    intro β placement slots linked all held arranged
    constructor
    · intro member
      refine ⟨arranged.mem_iff.mpr ⟨bucket, member⟩, ?_⟩
      rintro _ _ ⟨⟩
      exact arranged.placed bucket entry member
    · rintro ⟨member, covers⟩
      obtain ⟨userKey, cut, place⟩ := covers rfl
      exact arranged.mem_bucket place member cut
  cases table with
  | cuckoo table | vector table => exact index.elim
  | skipList table =>
    rw [index.all.mem_iff]
    exact ⟨fun member => ⟨member, fun none => nomatch none⟩, And.left⟩
  | hashedSkipLists table | hashedChains table =>
    obtain ⟨all, held, arranges, rfl, rfl⟩ := index
    exact ofBuckets arranges.1

theorem reads (lists : table.Lists order placing bucket rows entries taken) :
    table.shelf.Reads (handlesOf rows) entries := by
  obtain ⟨rfl, rfl, index⟩ := lists
  cases table with
  | cuckoo table | vector table => exact index.elim
  | skipList table => exact index.reads
  | hashedSkipLists table | hashedChains table =>
    obtain ⟨all, held, arranges, rfl, rfl⟩ := index
    exact arranges.1.reads bucket

theorem sorted (lists : table.Lists order placing bucket rows entries taken) :
    order.Sorted entries := by
  obtain ⟨rfl, rfl, index⟩ := lists
  cases table with
  | cuckoo table | vector table => exact index.elim
  | skipList table => exact index.sorted
  | hashedSkipLists table | hashedChains table =>
    obtain ⟨all, held, arranges, rfl, rfl⟩ := index
    exact arranges.1.sorted bucket

/-- A cursor along the list of a bucket follows its entries. -/
theorem follows (lists : table.Lists order placing bucket rows entries taken)
    (total : order.TotalOn keys) (readable : ∀ entry ∈ taken, HasKey keys entry) :
    table.moves.Follows order entries fun at? => .list { bucket, place := nodeAt rows at? } := by
  obtain ⟨rfl, rfl, index⟩ := lists
  cases table with
  | cuckoo table | vector table => exact index.elim
  | skipList table => exact bucketMoves_list (index.follows total readable)
  | hashedSkipLists table =>
    obtain ⟨all, held, arranges, rfl, rfl⟩ := index
    exact bucketMoves_list (HashedSkipTable.listMoves_follows arranges total readable bucket)
  | hashedChains table =>
    obtain ⟨all, held, arranges, rfl, rfl⟩ := index
    exact bucketMoves_list (HashedChainTable.listMoves_follows arranges bucket)

/-- An insert adds its entry if it succeeds, and every row of a list stays a row of it. -/
theorem insert (lists : table.Lists order placing bucket rows entries taken)
    (total : order.TotalOn keys) (readable : ∀ entry ∈ taken, HasKey keys entry) {draft : Draft}
    (hasKey : ∀ entry ∈ gained draft (table.insert draft).2, HasKey keys entry) :
    ∃ grown listed, rows ⊆ grown ∧ (table.insert draft).1.Lists order placing bucket grown listed
      (taken ++ gained draft (table.insert draft).2) := by
  obtain ⟨rfl, rfl, index⟩ := lists
  cases table with
  | cuckoo table | vector table => exact index.elim
  | skipList table =>
    obtain ⟨ordered, grown, listed, sub, now⟩ :=
      SkipTable.insert_arranges index total readable hasKey
    exact ⟨grown, listed, sub, ordered, rfl, now⟩
  | hashedSkipLists table =>
    obtain ⟨all, held, arranges, rfl, rfl⟩ := index
    obtain ⟨ordered, placement, size, grown, listed, sub, now⟩ :=
      HashedSkipTable.insert_arranges arranges total readable hasKey
    exact ⟨_, _, sub bucket, ordered, congrArg some (Prod.ext placement size), grown, listed, now,
      rfl, rfl⟩
  | hashedChains table =>
    obtain ⟨all, held, arranges, rfl, rfl⟩ := index
    obtain ⟨ordered, placement, size, grown, listed, sub, now⟩ :=
      HashedChainTable.insert_arranges arranges total readable hasKey
    exact ⟨_, _, sub bucket, ordered, congrArg some (Prod.ext placement size), grown, listed, now,
      rfl, rfl⟩

theorem allocate (lists : table.Lists order placing bucket rows entries taken) (size : Nat) :
    (table.allocate size).1.Lists order placing bucket rows entries taken := by
  obtain ⟨ordered, placed, index⟩ := lists
  have keeps := fun {arena : Arena} => @Arena.keeps_allocate arena size
  cases table with
  | cuckoo table | vector table => exact index.elim
  | skipList table => exact ⟨ordered, placed, index.keeps rfl keeps⟩
  | hashedSkipLists table | hashedChains table =>
    obtain ⟨all, held, arranges, same⟩ := index
    exact ⟨ordered, placed, all, held, ⟨arranges.1.keeps rfl keeps, arranges.2⟩, same⟩

/-- What one operation does to the list of a bucket. -/
theorem perform (lists : table.Lists order placing bucket rows entries taken)
    (total : order.TotalOn keys) (operation : Operation)
    (readable : ∀ entry ∈ taken ++ table.added operation, HasKey keys entry) :
    ∃ grown listed, rows ⊆ grown ∧ (table.perform operation).Lists order placing bucket grown listed
      (taken ++ table.added operation) := by
  have same : table.Lists order placing bucket rows entries (taken ++ []) := by
    rwa [List.append_nil]
  have unchanged : rows ⊆ rows := fun _ member => member
  have opened : ∀ range, (table.openCursor range).1.Lists order placing bucket rows entries
      (taken ++ []) := by
    intro range
    cases table with
    | cuckoo table | vector table => exact lists.index.elim
    | skipList table | hashedSkipLists table | hashedChains table => exact same
  cases operation with
  | insert draft =>
    exact lists.insert total (fun entry member => readable entry (List.mem_append_left _ member))
      fun entry member => readable entry (List.mem_append_right _ member)
  | allocate size => exact ⟨rows, entries, unchanged, same.allocate size⟩
  | openCursor range => exact ⟨rows, entries, unchanged, opened range⟩
  | contains internalKey =>
    refine ⟨rows, entries, unchanged, ?_⟩
    cases table <;> exact opened .all
  | get key goesOn =>
    refine ⟨rows, entries, unchanged, ?_⟩
    simp only [MemTable.perform, MemTable.get]
    cases key.userKey with
    | error failure => exact same
    | ok userKey => cases table <;> exact opened (.bucketOf userKey)
  | close =>
    refine ⟨rows, entries, unchanged, ?_⟩
    cases table with
    | cuckoo table | vector table => exact lists.index.elim
    | skipList table | hashedSkipLists table | hashedChains table =>
      exact ⟨same.order, same.placing, same.index⟩

end Lists

end MemTable

end WriteBuffer
