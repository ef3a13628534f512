import Mathlib
import WriteBuffer.Config.Create
import WriteBuffer.Proofs.SlotCounts
import WriteBuffer.Proofs.SteadySessions

/-!
Tables made from checked configurations. A configuration that passes its check, and whose arrays can
be had, makes a table, unless its sizes overflow (`TableConfig.Oversized`), which the check of a
cuckoo table overlooks. A table that was made starts steady (`MemTable.Starts`), whatever its hashes and
the heights of its towers, so no session on it goes wrong (`TableConfig.build_safe`).
-/
namespace WriteBuffer

variable {shelf : Shelf} {rule : PrefixRule} (sources : Sources)

section Checks

/-- Options that pass have buckets, and a height and a branching that towers can have. -/
theorem HashedSkipOptions.check_ok {options : HashedSkipOptions} (passed : options.check = .ok ()) :
    0 < options.bucketCount.toNat ∧
      ∃ list, SkipList.create options.height.toNat options.branching.toNat = .ok list := by
  have buckets : options.bucketCount ≠ 0 := by
    intro none
    simp [check, none] at passed
    cases passed
  have height : ¬ (options.height < 1 ∨ 32 < options.height) := by
    intro outside
    simp only [check, if_neg buckets, if_pos outside] at passed
    cases passed
  have branching : ¬ options.branching < 2 := by
    intro low
    simp only [check, if_neg buckets, if_neg height, if_pos low] at passed
    cases passed
  simp only [UInt64.lt_iff_toNat_lt, UInt32.lt_iff_toNat_lt] at height branching
  exact ⟨Nat.pos_of_ne_zero fun none => buckets (UInt64.toNat_inj.mp none), _,
    (if_neg height).trans (if_neg branching)⟩

theorem HashedChainOptions.check_ok {options : HashedChainOptions} (passed : options.check = .ok ()) :
    0 < options.bucketCount.toNat := by
  refine Nat.pos_of_ne_zero fun none => ?_
  have none : options.bucketCount = 0 := UInt64.toNat_inj.mp none
  simp only [check, if_pos none] at passed
  cases passed

end Checks

namespace TableConfig

/-- The arrays that a table is made with can be had. -/
def Obtainable : TableConfig → Prop
  | skipList => True
  | vector count => requireAllocatable count.toNat 4 = .ok ()
  | hashedSkipLists options =>
    requireAllocatable options.bucketCount.toNat HashedSkipIndex.bucketSize = .ok ()
  | hashedChains options =>
    requireAllocatable options.bucketCount.toNat HashedChainIndex.bucketSize = .ok ()
  | cuckoo options => ∀ slots, options.slotCount = .ok slots →
    requireAllocatable slots CuckooIndex.slotSize = .ok ()

/-- The size of a slot and its entry is too large to be computed. -/
def Oversized : TableConfig → Prop
  | cuckoo options => UInt64.size ≤ options.averageDataSize.toNat + 4
  | skipList | vector _ | hashedSkipLists _ | hashedChains _ => False

end TableConfig

namespace MemTable

variable {table : MemTable} {order : KeyOrder} {kind : TableKind}

/-- A table that was just made is steady, if it can make lists and has a bucket for every user key. -/
theorem Fresh.steady (fresh : Fresh order table) (lists : table.MakesLists)
    (places : ∀ userKey, Places table.placing userKey) : table.Steady order := by
  have holds := fresh.holds
  have readable : ∀ entry ∈ ([] : List Bytes), HasKey HasTag entry := fun _ member => by cases member
  cases fresh with
  | vector ordered made =>
    have orderly : VectorTable.Orderly _ HasTag := VectorTable.orderly_create made
    obtain rfl := VectorTable.create_ok made
    exact .vector ordered orderly
  | skipList | hashedSkipLists | hashedChains =>
    exact .linked (by rintro ⟨⟩) holds readable lists places

/-- A table of a kind with the entries of a shelf, on which nothing goes wrong. -/
structure Starts (table : MemTable) (kind : TableKind) (shelf : Shelf) : Prop where
  kind : table.kind = kind
  sound : table.Sound
  steady : table.Steady shelf.order
  onShelf : table.shelf = shelf

theorem Fresh.starts (fresh : Fresh shelf.order table) (onShelf : table.shelf = shelf)
    (lists : table.MakesLists) (places : ∀ userKey, Places table.placing userKey) :
    table.Starts table.kind shelf :=
  ⟨rfl, (Made.ordered fresh).sound, fresh.steady lists places, onShelf⟩

theorem Starts.withEarlierEvents (starts : table.Starts kind shelf) (events : List Event) :
    (table.withEarlierEvents events).Starts kind shelf := by
  obtain ⟨rfl, ⟨vacant, index⟩, steady, rfl⟩ := starts
  refine ⟨by cases table <;> rfl, ⟨by cases table <;> exact vacant, by cases table <;> exact index⟩,
    ?_, by cases table <;> rfl⟩
  cases steady with
  | vector ordered orderly => exact .vector ordered ⟨orderly.readable, orderly.closed⟩
  | cuckoo ordered stocked => exact .cuckoo ordered (stocked.keeps rfl fun read => read)
  | linked linked holds readable lists places =>
    obtain ⟨ordered, placed, index⟩ := holds
    cases table with
    | vector table => exact absurd rfl linked
    | cuckoo table => exact index.elim
    | skipList table | hashedSkipLists table | hashedChains table =>
      exact .linked linked ⟨ordered, placed, index⟩ readable lists places

section Makers

theorem newSkipList_starts (shelf : Shelf) : (newSkipList shelf sources).Starts .skipList shelf := by
  have fresh : Fresh shelf.order (newSkipList shelf sources) := .skipList _ rfl
  exact fresh.starts rfl trivial fun _ _ _ other => by cases other

theorem newVector_starts {count : Nat} (obtainable : requireAllocatable count 4 = .ok ()) :
    ∃ table, newVector shelf count = .ok table ∧ table.Starts .vector shelf := by
  have made : VectorTable.create shelf count = .ok { shelf, index := { capacity := count } } :=
    bind_eq_ok.mpr ⟨(), obtainable, rfl⟩
  have fresh : Fresh shelf.order (vector _) := .vector rfl made
  exact ⟨_, bind_eq_ok.mpr ⟨_, made, rfl⟩, fresh.starts rfl trivial fun _ _ _ other => by cases other⟩

theorem newHashedSkipLists_starts {buckets height branching : Nat}
    (obtainable : requireAllocatable buckets HashedSkipIndex.bucketSize = .ok ())
    (positive : 0 < buckets) (lists : ∃ list, SkipList.create height branching = .ok list)
    (groups : ∀ userKey, ∃ group, rule.groupOf userKey = .ok group) :
    ∃ table, newHashedSkipLists shelf rule buckets height branching sources = .ok table ∧
      table.Starts .hashedSkipLists shelf := by
  obtain ⟨table, made, towers⟩ : ∃ table, HashedSkipTable.create shelf ⟨rule, sources.groupHash⟩
      (sources.heights branching) buckets height branching = .ok table ∧
        (table.index.maxHeight, table.index.branching) = (height, branching) :=
    ⟨_, bind_eq_ok.mpr ⟨(), obtainable, rfl⟩, rfl⟩
  obtain ⟨rfl, rfl⟩ := Prod.mk.inj towers
  obtain ⟨onShelf, placement, size, _⟩ := HashedSkipTable.create_holds made
  have fresh : Fresh shelf.order (hashedSkipLists table) := .hashedSkipLists rfl made
  refine ⟨_, bind_eq_ok.mpr ⟨table, made, rfl⟩, fresh.starts onShelf ?_ ?_⟩
  · exact lists
  · rintro userKey _ _ ⟨⟩
    rw [placement, size]
    exact ⟨positive, groups userKey⟩

theorem newHashedChains_starts {buckets : Nat} (hugePageSize : Nat)
    (obtainable : requireAllocatable buckets HashedChainIndex.bucketSize = .ok ())
    (positive : 0 < buckets) (groups : ∀ userKey, ∃ group, rule.groupOf userKey = .ok group) :
    ∃ table, newHashedChains shelf rule buckets hugePageSize sources = .ok table ∧
      table.Starts .hashedChains shelf := by
  obtain ⟨table, made⟩ : ∃ table,
      HashedChainTable.create shelf ⟨rule, sources.groupHash⟩ buckets hugePageSize = .ok table :=
    ⟨_, bind_eq_ok.mpr ⟨(), obtainable, rfl⟩⟩
  obtain ⟨onShelf, placement, size, _⟩ := HashedChainTable.create_holds made
  have fresh : Fresh shelf.order (hashedChains table) := .hashedChains rfl made
  refine ⟨_, bind_eq_ok.mpr ⟨table, made, rfl⟩, fresh.starts onShelf trivial ?_⟩
  rintro userKey _ _ ⟨⟩
  rw [placement, size]
  exact ⟨positive, groups userKey⟩

theorem newCuckoo_starts {slots : Nat} (hashCount : Nat)
    (obtainable : requireAllocatable slots CuckooIndex.slotSize = .ok ()) (positive : 0 < slots) :
    ∃ table, newCuckoo shelf slots hashCount sources = .ok table ∧ table.Starts .cuckoo shelf := by
  obtain ⟨table, made⟩ : ∃ table, CuckooTable.create shelf sources.keyHash
      (sources.heights SkipIndex.branching) slots hashCount = .ok table :=
    ⟨_, bind_eq_ok.mpr ⟨(), obtainable, rfl⟩⟩
  have sound := (Made.cuckoo made).sound
  refine ⟨_, bind_eq_ok.mpr ⟨table, made, rfl⟩, rfl, sound, ?_, ?_⟩
  · obtain rfl := CuckooTable.create_ok made
    exact .cuckoo rfl ⟨.inl positive, sound.index, fun backup present => by cases present⟩
  · rw [CuckooTable.create_ok made]
    rfl

end Makers

theorem Starts.safe (starts : table.Starts kind shelf) (packed : shelf.arena.entries.Packed)
    (total : shelf.order.TotalOn HasTag) {commands : List TableCommand}
    (proper : ∀ command ∈ commands, command.Proper kind)
    (few : (({ table } : TableSession).run commands).table.arena.entries.reserved
      < UInt32.size - 1) : (({ table } : TableSession).run commands).Safe := by
  obtain ⟨rfl, sound, steady, rfl⟩ := starts
  have session : ({ table } : TableSession).Steady table.shelf.order :=
    ⟨sound, packed, steady, fun found => by cases found⟩
  exact (session.run total proper).1.safe total few

end MemTable

namespace TableConfig

variable {config : TableConfig} {factory : Factory}

/-- A configuration that passes its check makes a table that starts steady, or overflows. -/
theorem build_creates (built : config.build = .ok factory) (obtainable : config.Obtainable)
    (groups : ∀ userKey, ∃ group, rule.groupOf userKey = .ok group) :
    (config.Oversized ∧ factory.create shelf (some rule) sources = .error (.failed .overflow)) ∨
    (¬ config.Oversized ∧ ∃ table, factory.create shelf (some rule) sources = .ok table ∧
      table.Starts config.kind shelf) := by
  cases config with
  | skipList =>
    obtain rfl := Except.ok.inj built
    exact .inr ⟨id, _, rfl, (MemTable.newSkipList_starts sources shelf).withEarlierEvents _⟩
  | vector count =>
    obtain rfl := Except.ok.inj built
    obtain ⟨table, made, starts⟩ := MemTable.newVector_starts obtainable
    refine .inr ⟨id, _, ?_, starts.withEarlierEvents [.creatingVector count]⟩
    simp only [Factory.create, made]
    rfl
  | hashedSkipLists options =>
    obtain ⟨_, passed, same⟩ := bind_eq_ok.mp built
    obtain rfl := Except.ok.inj same
    obtain ⟨buckets, lists⟩ := HashedSkipOptions.check_ok passed
    obtain ⟨table, made, starts⟩ :=
      MemTable.newHashedSkipLists_starts sources obtainable buckets lists groups
    refine .inr ⟨id, _, ?_, starts.withEarlierEvents [.creatingHashedSkipLists rule.name
      options.bucketCount options.height options.branching]⟩
    simp only [Factory.create, Factory.requireRule, bind, Except.bind, made]
    rfl
  | hashedChains options =>
    obtain ⟨_, passed, same⟩ := bind_eq_ok.mp built
    obtain rfl := Except.ok.inj same
    obtain ⟨table, made, starts⟩ :=
      MemTable.newHashedChains_starts sources options.hugePageSize.toNat obtainable
        (HashedChainOptions.check_ok passed) groups
    refine .inr ⟨id, _, ?_, starts.withEarlierEvents [.creatingHashedChains rule.name
      options.bucketCount]⟩
    simp only [Factory.create, Factory.requireRule, bind, Except.bind, made]
    rfl
  | cuckoo options =>
    obtain ⟨_, _, same⟩ := bind_eq_ok.mp built
    obtain rfl := Except.ok.inj same
    have sameSlots : options.clamped.slotCount = options.slotCount := rfl
    rcases options.slotCount_cases with ⟨large, overflows⟩ | ⟨small, slots, counted, positive⟩
    · refine .inl ⟨large, ?_⟩
      simp only [Factory.create, sameSlots, overflows, bind, Except.bind]
      rfl
    · obtain ⟨table, made, starts⟩ :=
        MemTable.newCuckoo_starts sources options.clamped.hashCount.toNat (obtainable slots counted)
          positive
      refine .inr ⟨Nat.not_le_of_lt small, _, ?_, starts.withEarlierEvents [.creatingCuckoo]⟩
      simp only [Factory.create, sameSlots, counted, bind, Except.bind, made]
      rfl

/-- A configuration that passes its check, and whose arrays can be had, makes a table unless its sizes
overflow. While the arena has handles left, nothing goes wrong in a session on it. This does not depend
on the hashes and heights the table is made with. -/
theorem build_safe (built : config.build = .ok factory) (obtainable : config.Obtainable)
    (packed : shelf.arena.entries.Packed) (total : shelf.order.TotalOn HasTag)
    (groups : ∀ userKey, ∃ group, rule.groupOf userKey = .ok group) :
    let created := factory.create shelf (some rule) sources
    (created = .error (.failed .overflow) ↔ config.Oversized) ∧
      (¬ config.Oversized → ∃ table, created = .ok table ∧ table.kind = config.kind ∧
        ∀ commands : List TableCommand, (∀ command ∈ commands, command.Proper config.kind) →
          let now := ({ table } : TableSession).run commands
          now.table.arena.entries.reserved < UInt32.size - 1 → now.Safe) := by
  intro created
  rcases build_creates sources built obtainable groups with ⟨large, failed⟩ | ⟨small, table, made, starts⟩
  · exact ⟨⟨fun _ => large, fun _ => failed⟩, fun small => absurd large small⟩
  · refine ⟨⟨fun failed => ?_, fun large => absurd large small⟩, fun _ => ?_⟩
    · cases made.symm.trans failed
    · exact ⟨table, made, starts.kind, fun commands proper few => starts.safe packed total proper few⟩

/-- On a table of two chains, adding a record twice goes wrong only as it is meant to. -/
theorem two_chains_safe :
    let config : TableConfig := .hashedChains { bucketCount := 2 }
    let factory : Factory := { config }
    let shelf : Shelf := { order := .versioned, arena := { id := 0 } }
    let add := TableCommand.add { userKey := [97], kind := .put, sequence := 1, value := [7] }
    config.build = .ok factory ∧ ∃ table, factory.create shelf (some .whole) = .ok table ∧
      let now := ({ table } : TableSession).run [add]
      now.Safe ∧ (now.execute add).2 = .error (.failed (.duplicateKey .chain)) := by
  intro config factory shelf add
  have proper : add.Proper .hashedChains :=
    ⟨⟨by simp [Record.KeyFits, tagSize, lengthSize], by simp [lengthSize]⟩, by decide⟩
  have packed : shelf.arena.entries.Packed := ChunkStore.packed_empty
  obtain ⟨_, made⟩ := @build_safe shelf .whole {} config factory rfl rfl packed
    KeyOrder.versioned_totalOn fun userKey => ⟨userKey, rfl⟩
  obtain ⟨table, created, _, safe⟩ := made id
  refine ⟨rfl, table, created, ?_⟩
  obtain rfl := Except.ok.inj created
  exact ⟨safe [add] (List.forall_mem_singleton.mpr proper) (by decide +kernel), by decide +kernel⟩

/-- The check of a cuckoo table accepts an average size with which no slot can be computed. -/
theorem oversized_accepted :
    let config : TableConfig :=
      .cuckoo { writeBufferSize := 1, averageDataSize := 18446744073709551612 }
    let shelf : Shelf := { order := .versioned, arena := { id := 0 } }
    config.Obtainable ∧ ∃ factory, config.build = .ok factory ∧
      factory.create shelf (some .whole) = .error (.failed .overflow) := by
  intro config shelf
  have overflows : ({ writeBufferSize := 1, averageDataSize := 18446744073709551612 } :
      CuckooOptions).slotCount = .error .overflow := rfl
  refine ⟨fun slots counted => ?_, _, rfl, rfl⟩
  cases overflows.symm.trans counted

end TableConfig

end WriteBuffer
