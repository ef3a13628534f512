import Mathlib
import WriteBuffer.Proofs.Table.Housing
import WriteBuffer.Proofs.Table.Skip
import WriteBuffer.Proofs.VersionedOrder
import WriteBuffer.Table.Cuckoo

/-!
Tables with a slot for each user key. Whatever way an entry gets its slot, the slots hold the latest
versions afterwards (`CuckooTable.settle_cases`), and an insert into an open table fails without an
effect or makes its entry the latest version of its user key (`CuckooTable.Holds.insert_open`). A
table has exactly the internal keys of the latest versions (`CuckooTable.Holds.contains_eq`).
-/
namespace WriteBuffer

/-- The slots that a user key may have, in order of preference. -/
def CuckooIndex.places (index : CuckooIndex) (userKey : Bytes) : List Nat :=
  (List.range index.hashCount).map fun seed =>
    (index.hash (UInt64.ofNat seed) userKey).toNat % index.slots.size

/-- A user key can be given slots to choose from: there are some, or it gets none. -/
def CuckooIndex.Chooses (index : CuckooIndex) : Prop := 0 < index.slots.size ∨ index.hashCount = 0

theorem CuckooIndex.Chooses.candidates_eq {index : CuckooIndex} (chooses : index.Chooses)
    (userKey : Bytes) : index.candidates userKey = .ok (index.places userKey) := by
  have some : ¬ (index.slots.size = 0 ∧ index.hashCount ≠ 0) := fun ⟨empty, hashes⟩ =>
    chooses.elim (fun size => Nat.ne_of_gt size empty) hashes
  rw [candidates, if_neg some, places]

namespace CuckooTable

/-- The slots of a table hold the given entries. -/
def Shows (table : CuckooTable) (slots : Nat → Option Bytes) : Prop :=
  ∀ slot, table.entryAt slot = .ok (slots slot)

section Reads

variable {table : CuckooTable} {slots : Nat → Option Bytes} {spare : Option Bytes}
  {taken : List Bytes} (shown : table.Shows slots)
include shown

theorem Shows.isFull_eq (slot : Nat) : table.index.isFull slot = (slots slot).isSome := by
  have read := shown slot
  simp only [entryAt] at read
  simp only [CuckooIndex.isFull]
  split at read
  · next empty =>
    rw [empty, ← Except.ok.inj read]
    rfl
  · next handle full =>
    rw [full]
    cases found : table.shelf.arena.get handle with
    | error failure => simp [found, Except.map] at read
    | ok entry =>
      simp only [found, Except.map, Except.ok.injEq] at read
      rw [← read]
      rfl

theorem Shows.eq_none {slot : Nat} (empty : table.index.isFull slot = false) :
    slots slot = none := by
  rw [shown.isFull_eq, Option.isSome_eq_false_iff, Option.isNone_iff_eq_none] at empty
  exact empty

theorem Shows.keeps {shelf : Shelf} {gate : Gate} {log : List Event}
    (keeps : table.shelf.arena.Keeps shelf.arena) : Shows { table with shelf, gate, log } slots := by
  intro slot
  have read := shown slot
  simp only [entryAt] at read ⊢
  split at read
  · exact read
  · next handle full =>
    cases found : table.shelf.arena.get handle with
    | error failure => simp [found, Except.map] at read
    | ok entry =>
      rw [found] at read
      rw [keeps found]
      exact read

/-- Of some slots, the first with an entry that passes a test is found, if there is one. -/
theorem Shows.findSlot_cases {test : Bytes → Except Failure Bool} {Passes : Bytes → Prop}
    (answers : ∀ slot entry, slots slot = some entry →
      ∃ passed, test entry = .ok passed ∧ (passed = true ↔ Passes entry)) (among : List Nat) :
    (∃ slot entry, table.findSlot test among = .ok (some (slot, entry)) ∧ slot ∈ among ∧
      slots slot = some entry ∧ Passes entry) ∨
    table.findSlot test among = .ok none ∧
      ∀ slot ∈ among, ∀ entry, slots slot = some entry → ¬ Passes entry := by
  induction among with
  | nil => exact .inr ⟨rfl, by simp⟩
  | cons first rest ih =>
    have later : slots first = none ∨ (∃ entry, slots first = some entry ∧ test entry = .ok false ∧
        ¬ Passes entry) → table.findSlot test (first :: rest) = table.findSlot test rest := by
      rintro (empty | ⟨entry, full, refused, _⟩)
      · simp only [findSlot, shown first, empty, bind, Except.bind]
      · simp [findSlot, shown first, full, refused, bind, Except.bind]
    cases found : slots first with
    | none =>
      rw [later (.inl found)]
      refine ih.imp ?_ fun ⟨nothing, absent⟩ => ⟨nothing, ?_⟩
      · rintro ⟨slot, entry, same, member, rest⟩
        exact ⟨slot, entry, same, List.mem_cons_of_mem _ member, rest⟩
      · simpa [found] using absent
    | some entry =>
      obtain ⟨passed, answer, exactly⟩ := answers first entry found
      cases passed with
      | true =>
        refine .inl ⟨first, entry, ?_, List.mem_cons_self, found, exactly.mp rfl⟩
        simp [findSlot, shown first, found, answer, bind, Except.bind, pure, Except.pure]
      | false =>
        have refused : ¬ Passes entry := fun passes => by simpa using exactly.mpr passes
        rw [later (.inr ⟨entry, found, answer, refused⟩)]
        refine ih.imp ?_ fun ⟨nothing, absent⟩ => ⟨nothing, ?_⟩
        · rintro ⟨slot, entry, same, member, rest⟩
          exact ⟨slot, entry, same, List.mem_cons_of_mem _ member, rest⟩
        · simpa [found, refused] using absent

variable (housed : Housed table.index.places slots spare taken) (chooses : table.index.Chooses)
include housed chooses

/-- The slot of a user key is found, if it has one. -/
theorem Shows.findUserKey_cases (userKey : Bytes) :
    (∃ slot entry, table.findUserKey userKey = .ok (some (slot, entry)) ∧
      slot ∈ table.index.places userKey ∧ slots slot = some entry ∧
      entryUserKey entry = .ok userKey) ∨
    table.findUserKey userKey = .ok none ∧
      ∀ slot entry, slots slot = some entry → entryUserKey entry ≠ .ok userKey := by
  let test : Bytes → Except Failure Bool := fun entry => do
    return (← entryUserKey entry) == userKey
  have answers : ∀ slot entry, slots slot = some entry → ∃ passed, test entry = .ok passed ∧
      (passed = true ↔ entryUserKey entry = .ok userKey) := by
    intro slot entry found
    obtain ⟨key, cut, _⟩ := housed.own found
    exact ⟨key == userKey, by simp [test, cut, bind, Except.bind, pure, Except.pure], by simp [cut]⟩
  have result : table.findUserKey userKey = table.findSlot test (table.index.places userKey) := by
    simp only [findUserKey, chooses.candidates_eq]
    rfl
  rw [result]
  refine (shown.findSlot_cases answers (table.index.places userKey)).imp_right ?_
  rintro ⟨nothing, absent⟩
  refine ⟨nothing, fun slot entry found cut => ?_⟩
  obtain ⟨key, user, own⟩ := housed.own found
  obtain rfl := Except.ok.inj (user.symm.trans cut)
  exact absent slot own entry found cut

theorem Shows.choices_ok (slot : Nat) : ∃ among, choices table slot = .ok among ∧
    ∀ target ∈ among, MayHave table.index.places slots slot target := by
  simp only [choices, shown slot, bind, Except.bind]
  cases found : slots slot with
  | none => exact ⟨[], rfl, by simp⟩
  | some entry =>
    obtain ⟨key, cut, _⟩ := housed.own found
    simp only [cut, chooses.candidates_eq]
    exact ⟨_, rfl, fun target member => ⟨entry, key, found, cut, member⟩⟩

theorem Shows.mayHave {source target : Nat} (moves : MayMove (choices table) source target) :
    MayHave table.index.places slots source target := by
  obtain ⟨among, chosen, member⟩ := moves
  obtain ⟨same, found, may⟩ := shown.choices_ok housed chooses source
  obtain rfl := Except.ok.inj (chosen.symm.trans found)
  exact may target member

end Reads

/-- A user key that no slot holds finds no room: all of its slots are full, and no chain of moves is
found that makes room in one of them. -/
structure Crowded (table : CuckooTable) (userKey : Bytes) : Prop where
  absent : ∀ slot entry, table.entryAt slot = .ok (some entry) → entryUserKey entry ≠ .ok userKey
  full : ∀ slot ∈ table.index.places userKey, table.index.isFull slot = true
  stuck : findRoom table.index.isFull (choices table) (table.index.places userKey) = .ok none

section Settle

variable {table : CuckooTable} {slots : Nat → Option Bytes} {taken : List Bytes} {handle : Handle}
  {entry userKey : Bytes}

theorem Shows.moved (shown : table.Shows slots) (read : table.shelf.arena.get handle = .ok entry)
    {stored : Sparse Handle} {path : List Nat} {target : Nat}
    (contents : ∀ slot, stored.get? slot = match origin path target slot with
      | none => some handle
      | some source => table.index.slots.get? source) :
    (withSlots table stored).Shows fun slot => match origin path target slot with
      | none => some entry
      | some source => slots source := by
  intro slot
  simp only [entryAt, withSlots, contents]
  cases origin path target slot with
  | none => simp only [read, Except.map]
  | some source => exact shown source

/-- A published entry gets a slot, unless its user key finds no room. -/
theorem settle_cases (shown : table.Shows slots)
    (housed : Housed table.index.places slots none taken) (chooses : table.index.Chooses)
    (read : table.shelf.arena.get handle = .ok entry) (user : entryUserKey entry = .ok userKey) :
    (table.Crowded userKey ∧ settle table handle = .ok none ∧
      ∀ slot other, slots slot = some other → entryUserKey other ≠ .ok userKey) ∨
    (¬ table.Crowded userKey ∧ ∃ stored longestChain moved,
      settle table handle = .ok (some { table with
        index := { table.index with slots := stored, longestChain } }) ∧
      stored.size = table.index.slots.size ∧ (withSlots table stored).Shows moved ∧
      Housed table.index.places moved none (taken ++ [entry])) := by
  have put : ∀ target slot, (table.index.slots.put target handle).get? slot
      = match origin [] target slot with
        | none => some handle
        | some source => table.index.slots.get? source := by
    intro target slot
    simp only [Sparse.get?_put, origin]
    split <;> rfl
  have chosen := chooses.candidates_eq userKey
  simp only [settle, read, user, bind, Except.bind]
  rcases shown.findUserKey_cases housed chooses userKey with
    ⟨slot, other, found, own, full, cut⟩ | ⟨nothing, homeless⟩
  · -- The entry replaces the one before it.
    refine .inr ⟨fun crowded => crowded.absent slot other (by rw [shown slot, full]) cut, ?_⟩
    simp only [found]
    refine ⟨_, table.index.longestChain, _, rfl, rfl, shown.moved read (put slot), ?_⟩
    refine housed.moved user (List.nodup_singleton slot) own ?_ ?_
    · intro replaced same
      rw [Option.some.inj (same.symm.trans full), cut]
    · intro elsewhere replaced differs same again
      exact differs (housed.once same full (again.trans cut.symm))
  · have absent : ∀ slot other, table.entryAt slot = .ok (some other) →
        entryUserKey other ≠ .ok userKey := by
      intro slot other found
      exact homeless slot other (Except.ok.inj ((shown slot).symm.trans found))
    simp only [nothing, chosen]
    cases free : (table.index.places userKey).find? (!table.index.isFull ·) with
    | some slot =>
      have own := List.mem_of_find?_eq_some free
      have empty : table.index.isFull slot = false := by
        simpa using List.find?_some (p := (!table.index.isFull ·)) free
      refine .inr ⟨fun crowded => by simp [crowded.full slot own] at empty, ?_⟩
      refine ⟨_, table.index.longestChain, _, rfl, rfl, shown.moved read (put slot), ?_⟩
      exact housed.filled user (List.nodup_singleton slot) own (shown.eq_none empty) homeless
    | none =>
      have full : ∀ slot ∈ table.index.places userKey, table.index.isFull slot = true := by
        simpa using List.find?_eq_none.mp free
      obtain ⟨answer, searched⟩ := findRoom_ok table.index.isFull
        (fun slot => (shown.choices_ok housed chooses slot).imp fun _ choice => choice.1)
        (table.index.places userKey)
      simp only [searched]
      cases answer with
      | none => exact .inl ⟨⟨absent, full, searched⟩, rfl, homeless⟩
      | some room =>
        obtain ⟨path, target⟩ := room
        refine .inr ⟨fun crowded => ?_, ?_⟩
        · cases crowded.stuck.symm.trans searched
        · obtain ⟨chain, distinct, empty⟩ := findRoom_chain full searched
          refine ⟨_, _, _, rfl, size_applyStores .., shown.moved read (get?_displace distinct), ?_⟩
          exact housed.filled user distinct (chain.mono fun _ _ => shown.mayHave housed chooses)
            (shown.eq_none empty) homeless

/-- An entry that gets a slot changes the slots only, and puts nothing into them but its handle and
what was in some slot before. -/
theorem settle_changes {settled : CuckooTable} (done : settle table handle = .ok (some settled)) :
    ∃ slots longestChain,
      settled = { table with index := { table.index with slots, longestChain } } ∧
      slots.size = table.index.slots.size ∧ ∀ {slot found}, slots.get? slot = some found →
        found = handle ∨ ∃ source, table.index.slots.get? source = some found := by
  have put : ∀ target {slot found}, (table.index.slots.put target handle).get? slot = some found →
      found = handle ∨ ∃ source, table.index.slots.get? source = some found := by
    intro target slot found holds
    rw [Sparse.get?_put] at holds
    split at holds
    · exact .inl (Option.some.inj holds).symm
    · exact .inr ⟨slot, holds⟩
  simp only [settle, bind_eq_ok] at done
  obtain ⟨_, _, userKey, _, found, _, done⟩ := done
  cases found with
  | some slot =>
    obtain rfl := Option.some.inj (Except.ok.inj done)
    exact ⟨_, _, rfl, rfl, put slot.1⟩
  | none =>
    simp only [bind_eq_ok] at done
    obtain ⟨candidates, _, done⟩ := done
    split at done
    · next slot _ =>
      obtain rfl := Option.some.inj (Except.ok.inj done)
      exact ⟨_, _, rfl, rfl, put slot⟩
    · simp only [bind_eq_ok] at done
      obtain ⟨room, _, done⟩ := done
      cases room with
      | none => cases done
      | some room =>
        obtain rfl := Option.some.inj (Except.ok.inj done)
        exact ⟨_, _, rfl, size_applyStores .., mem_applyStores _ _ fun holds => .inr ⟨_, holds⟩⟩

end Settle

/-- The backup of a table holds the one entry that is not in a slot, and then the table is
read-only; or there is no such entry and no backup. -/
inductive Spares (table : CuckooTable) : Option Bytes → Prop
  | nothing (absent : table.index.backup = none) : Spares table none
  | one {entry : Bytes} {backup : SkipIndex} (closed : table.isReadOnly = true)
    (present : table.index.backup = some backup) (holds : backup.Holds table.shelf [entry]) :
    Spares table (some entry)

/-- The slots and the backup of a table hold exactly the latest versions of the user keys of some
entries. -/
structure Holds (table : CuckooTable) (slots : Nat → Option Bytes) (spare : Option Bytes)
    (taken : List Bytes) : Prop where
  order : table.shelf.order = .versioned
  chooses : table.index.Chooses
  shown : table.Shows slots
  housed : Housed table.index.places slots spare taken
  backup : table.Spares spare

section Holds

variable {table : CuckooTable} {slots : Nat → Option Bytes} {spare : Option Bytes}
  {taken : List Bytes}

theorem create_ok {shelf : Shelf} {hash : UInt64 → Bytes → UInt64} {heights : Heights}
    {count hashCount : Nat} (made : create shelf hash heights count hashCount = .ok table) :
    table = {
      shelf
      log := [.creatingCuckooTable count hashCount]
      index := { hash, hashCount, slots := .empty count, heights } } := by
  simp only [create, bind_eq_ok, pure, Except.pure, Except.ok.injEq] at made
  obtain ⟨_, _, same⟩ := made
  exact same.symm

theorem create_holds_of_chooses {shelf : Shelf} {hash : UInt64 → Bytes → UInt64} {heights : Heights}
    {count hashCount : Nat} (made : create shelf hash heights count hashCount = .ok table)
    (order : shelf.order = .versioned) (chooses : 0 < count ∨ hashCount = 0) :
    table.Holds (fun _ => none) none [] := by
  obtain rfl := create_ok made
  exact ⟨order, chooses, fun slot => rfl, .empty, .nothing rfl⟩

theorem create_holds {shelf : Shelf} {hash : UInt64 → Bytes → UInt64} {heights : Heights}
    {count hashCount : Nat} (made : create shelf hash heights count hashCount = .ok table)
    (order : shelf.order = .versioned) (size : 0 < count) : table.Holds (fun _ => none) none [] :=
  create_holds_of_chooses made order (.inl size)

/-- A table that keeps all entries of another one, and what holds them, holds the same. -/
theorem Holds.keeps (holds : table.Holds slots spare taken) {shelf : Shelf} {gate : Gate}
    {log : List Event} (order : shelf.order = table.shelf.order)
    (keeps : table.shelf.arena.Keeps shelf.arena)
    (closed : table.gate.readOnly = true → gate.readOnly = true) :
    Holds { table with shelf, gate, log } slots spare taken where
  order := order.trans holds.order
  chooses := holds.chooses
  shown := holds.shown.keeps keeps
  housed := holds.housed
  backup := by
    cases holds.backup with
    | nothing absent => exact .nothing absent
    | one readOnly present stored => exact .one (closed readOnly) present (stored.keeps order keeps)

/-- The answer whether a table has a key is yes exactly if it is that of a latest version. -/
theorem Holds.contains_eq (holds : table.Holds slots spare taken) {internalKey : Bytes}
    (tagged : HasTag internalKey) :
    ∃ answer, table.contains internalKey = .ok answer ∧ (answer = true ↔
      ∃ userKey entry, latest userKey taken = some entry ∧ entryKey entry = .ok internalKey) := by
  let test : Bytes → Except Failure Bool := fun entry => do
    return (← table.shelf.order.compareEntryKey entry internalKey) == .eq
  have answers : ∀ slot entry, slots slot = some entry → ∃ passed, test entry = .ok passed ∧
      (passed = true ↔ entryKey entry = .ok internalKey) := by
    intro slot entry found
    obtain ⟨userKey, cut, _⟩ := holds.housed.own found
    obtain ⟨ordering, answer, exactly⟩ := KeyOrder.versioned_compareEntryKey cut tagged
    refine ⟨ordering == .eq, ?_, by rw [beq_iff_eq, exactly]⟩
    simp [test, holds.order, answer, bind, Except.bind, pure, Except.pure]
  have candidates := holds.chooses.candidates_eq (userPart internalKey)
  rcases holds.shown.findSlot_cases answers (table.index.places (userPart internalKey)) with
    ⟨slot, entry, found, _, full, cut⟩ | ⟨nothing, absent⟩
  · refine ⟨true, ?_, fun _ => ?_, fun _ => rfl⟩
    · exact bind_eq_ok.mpr ⟨_, userKeyOf_eq tagged, bind_eq_ok.mpr ⟨_, candidates,
        bind_eq_ok.mpr ⟨_, found, rfl⟩⟩⟩
    · exact ⟨_, entry, holds.housed.latest.mpr ⟨entryUserKey_eq cut tagged, .inl ⟨slot, full⟩⟩, cut⟩
  · have passed : ∀ answer, table.index.backup.elim (.ok false) (fun backup =>
        backup.list.contains backup.nodes table.shelf internalKey) = .ok answer →
          table.contains internalKey = .ok answer := by
      intro answer ofBackup
      refine bind_eq_ok.mpr ⟨_, userKeyOf_eq tagged, bind_eq_ok.mpr ⟨_, candidates,
        bind_eq_ok.mpr ⟨_, nothing, ?_⟩⟩⟩
      cases backedUp : table.index.backup <;>
        simpa [backedUp, pure, Except.pure] using ofBackup
    -- What is in no slot is in the backup or nowhere.
    have spared : (∃ userKey entry, latest userKey taken = some entry ∧
        entryKey entry = .ok internalKey) ↔
          ∃ entry, spare = some entry ∧ entryKey entry = .ok internalKey := by
      constructor
      · rintro ⟨userKey, entry, isLatest, cut⟩
        obtain ⟨user, ⟨slot, full⟩ | backedUp⟩ := holds.housed.latest.mp isLatest
        · obtain ⟨same, again, own⟩ := holds.housed.own full
          obtain rfl := Except.ok.inj ((entryUserKey_eq cut tagged).symm.trans again)
          exact absurd cut (absent slot own entry full)
        · exact ⟨entry, backedUp, cut⟩
      · rintro ⟨entry, backedUp, cut⟩
        exact ⟨_, entry, holds.housed.latest.mpr ⟨entryUserKey_eq cut tagged, .inr backedUp⟩, cut⟩
    rw [spared]
    obtain ⟨order, _, _, housed, backup⟩ := holds
    cases backup with
    | nothing none => exact ⟨false, passed false (by simp [none]), by simp⟩
    | @one entry backup closed present stored =>
      obtain ⟨userKey, user⟩ := housed.named rfl
      obtain ⟨key, cut, taggedKey, _⟩ := entryKey_of_entryUserKey user
      obtain ⟨ordering, answer, exactly⟩ := KeyOrder.versioned_compareEntryKey user tagged
      have total : table.shelf.order.TotalOn HasTag := order ▸ KeyOrder.versioned_totalOn
      obtain ⟨found, searched, same⟩ := stored.contains_eq total (by simpa using ⟨key, cut, taggedKey⟩) tagged
      refine ⟨found, passed found (by simp [present, searched]), same.trans ?_⟩
      simp [order, answer, exactly]

/-- A lookup shows the version of its user key that has a slot, and otherwise what the backup has that
is not below it. -/
theorem Holds.get_cases (holds : table.Holds slots spare taken) (userKey : Bytes) {target : Bytes}
    (tagged : HasTag target) :
    (∃ slot entry, slots slot = some entry ∧ entryUserKey entry = .ok userKey ∧
      ∀ goesOn, table.get userKey target goesOn = .ok [entry]) ∨
    (∀ slot entry, slots slot = some entry → entryUserKey entry ≠ .ok userKey) ∧
      ∃ front back, spare.toList = front ++ back ∧ KeyOrder.versioned.Splits target front back ∧
        ∀ goesOn, table.get userKey target goesOn = .ok (seen goesOn [] back) := by
  rcases holds.shown.findUserKey_cases holds.housed holds.chooses userKey with
    ⟨slot, entry, found, _, full, user⟩ | ⟨nothing, absent⟩
  · refine .inl ⟨slot, entry, full, user, fun goesOn => ?_⟩
    simp only [get, found, bind, Except.bind, pure, Except.pure]
  · refine .inr ⟨absent, ?_⟩
    obtain ⟨order, _, _, housed, backup⟩ := holds
    cases backup with
    | nothing none =>
      refine ⟨[], [], rfl, ⟨by simp, by simp⟩, fun goesOn => ?_⟩
      simp only [get, nothing, none, seen, bind, Except.bind, pure, Except.pure]
    | @one entry backup _ present stored =>
      obtain ⟨user, cut⟩ := housed.named rfl
      obtain ⟨key, found, taggedKey, _⟩ := entryKey_of_entryUserKey cut
      have readable : ∀ other ∈ [entry], HasKey HasTag other := by simpa using ⟨key, found, taggedKey⟩
      have total : table.shelf.order.TotalOn HasTag := order ▸ KeyOrder.versioned_totalOn
      obtain ⟨rows, entries, arranges⟩ := stored
      obtain rfl := List.perm_singleton.mp arranges.all
      obtain ⟨front, back, parts, split⟩ := total.splits tagged readable arranges.sorted
      refine ⟨front, back, parts, order ▸ split, fun goesOn => ?_⟩
      simp only [get, nothing, present, bind, Except.bind]
      exact (arranges.follows total readable).visitFrom none parts split goesOn

end Holds

/-- An entry has the internal key of the latest version of its user key. -/
def Repeats (taken : List Bytes) (entry : Bytes) : Prop :=
  ∃ userKey other, entryUserKey entry = .ok userKey ∧ latest userKey taken = some other ∧
    entryKey other = entryKey entry

/-- A draft that can be published, but whose user key finds no room. -/
structure Crowds (table : CuckooTable) (draft : Draft) : Prop where
  published : ∃ arena, table.shelf.arena.publish draft = .ok arena
  crowded : ∃ userKey, entryUserKey draft.bytes = .ok userKey ∧ table.Crowded userKey

section Insert

variable {table : CuckooTable} {slots : Nat → Option Bytes} {spare : Option Bytes}
  {taken : List Bytes} {draft : Draft}

/-- Whether a user key finds room depends on the index and the entries in the slots only. -/
theorem Shows.crowded_iff {other : CuckooTable} (shown : table.Shows slots)
    (same : other.Shows slots) (index : other.index = table.index) {userKey : Bytes} :
    other.Crowded userKey ↔ table.Crowded userKey := by
  have reads : other.entryAt = table.entryAt := by
    funext slot
    rw [same slot, shown slot]
  have choose : choices other = choices table := by
    funext slot
    simp only [choices, reads, index]
  constructor
  · rintro ⟨absent, full, stuck⟩
    rw [index, choose] at stuck
    rw [index] at full
    rw [reads] at absent
    exact ⟨absent, full, stuck⟩
  · rintro ⟨absent, full, stuck⟩
    refine ⟨reads ▸ absent, index ▸ full, ?_⟩
    rw [index, choose]
    exact stuck

/-- An entry is refused exactly if it repeats the latest version of its user key. -/
theorem refuseRepeated_cases (order : table.shelf.order = .versioned) (chooses : table.index.Chooses)
    (shown : table.Shows slots) (housed : Housed table.index.places slots none taken)
    {userKey : Bytes} (user : entryUserKey draft.bytes = .ok userKey) :
    (Repeats taken draft.bytes ∧ ¬ table.Crowds draft ∧
        table.refuseRepeated draft.bytes = .error (.duplicateKey .cuckooTable)) ∨
      (¬ Repeats taken draft.bytes ∧ table.refuseRepeated draft.bytes = .ok ()) := by
  obtain ⟨key, cut, tagged, _⟩ := entryKey_of_entryUserKey user
  rcases shown.findUserKey_cases housed chooses userKey with
    ⟨slot, existing, found, own, full, userExisting⟩ | ⟨nothing, homeless⟩
  · obtain ⟨ordering, answer, exactly⟩ := KeyOrder.versioned_compareEntryKey userExisting tagged
    have isLatest := housed.latest.mpr ⟨userExisting, .inl ⟨slot, full⟩⟩
    have compared : table.shelf.order.compareEntries existing draft.bytes = .ok ordering := by
      rw [order, KeyOrder.compareEntries_eq _ cut, answer]
    rw [← cut] at exactly
    by_cases equal : ordering = .eq
    · refine .inl ⟨⟨userKey, existing, user, isLatest, exactly.mp equal⟩, ?_, ?_⟩
      · rintro ⟨_, same, again, crowded⟩
        obtain rfl := Except.ok.inj (user.symm.trans again)
        exact crowded.absent slot existing (by rw [shown slot, full]) userExisting
      · simp [refuseRepeated, user, found, compared, equal, bind, Except.bind, throw, throwThe,
          MonadExceptOf.throw]
    · refine .inr ⟨?_, ?_⟩
      · rintro ⟨same, other, again, latestOther, repeated⟩
        obtain rfl := Except.ok.inj (user.symm.trans again)
        obtain rfl := Option.some.inj (isLatest.symm.trans latestOther)
        exact equal (exactly.mpr repeated)
      · simp [refuseRepeated, user, found, compared, equal, bind, Except.bind, pure, Except.pure]
  · refine .inr ⟨?_, by simp [refuseRepeated, user, nothing, bind, Except.bind, pure, Except.pure]⟩
    rintro ⟨same, other, again, latestOther, repeated⟩
    obtain rfl := Except.ok.inj (user.symm.trans again)
    obtain ⟨userOther, ⟨slot, full⟩ | spare⟩ := housed.latest.mp latestOther
    · exact homeless slot other full userOther
    · cases spare

theorem spill_ok (table : CuckooTable) {handle : Handle} {entry : Bytes}
    (read : table.shelf.arena.get handle = .ok entry) :
    ∃ backup log, spill table handle = .ok { table with
        gate := table.gate.close, log, index := { table.index with backup := some backup } } ∧
      backup.Holds table.shelf [entry] := by
  obtain ⟨backup, linked⟩ := SkipIndex.link_empty table.index.heights read
  let event : Event :=
    if table.gate.readOnly then .stillReadOnly .cuckoo else .nowReadOnly .cuckoo
  refine ⟨backup, table.log ++ [.spilling table.index.slots.size maxDisplacements]
    ++ [.nowReadOnly .skipList] ++ [event], ?_, SkipIndex.link_empty_holds linked read⟩
  exact bind_eq_ok.mpr ⟨backup, linked, rfl⟩

/-- A published entry is housed, in the backup if its user key finds no room. -/
theorem Holds.house_ok (holds : table.Holds slots none taken) {userKey : Bytes}
    (user : entryUserKey draft.bytes = .ok userKey) {stored : CuckooTable}
    (published : table.publish draft = .ok stored) :
    ∃ now held backup, house stored draft.handle = .ok now ∧
      now.Holds held backup (taken ++ [draft.bytes]) ∧
      (now.index.backup.isSome ↔ table.Crowded userKey) := by
  obtain ⟨arena, added, rfl⟩ := Table.publish_ok published
  obtain ⟨read, keeps⟩ := Arena.get_publish added
  have absent : table.index.backup = none := by
    cases holds.backup with
    | nothing absent => exact absent
  let stored : CuckooTable := { table with shelf := { table.shelf with arena } }
  have shown : stored.Shows slots := holds.shown.keeps keeps
  have crowded : stored.Crowded userKey ↔ table.Crowded userKey :=
    holds.shown.crowded_iff shown rfl
  simp only [house, bind, Except.bind]
  rcases settle_cases shown holds.housed holds.chooses read user with
    ⟨full, unsettled, homeless⟩ | ⟨room, slots', longestChain, moved, settled, same, shown, housed⟩
  · obtain ⟨backup, log, spilled, held⟩ := spill_ok stored read
    refine ⟨_, slots, some draft.bytes, by rw [unsettled]; exact spilled, ?_, ?_⟩
    · exact ⟨holds.order, holds.chooses, shown, holds.housed.spilled user homeless, .one rfl rfl held⟩
    · simpa using crowded.mp full
  · refine ⟨_, moved, none, by rw [settled]; rfl, ?_, ?_⟩
    · have places : CuckooIndex.places { stored.index with slots := slots', longestChain }
          = stored.index.places := by
        funext userKey
        simp only [CuckooIndex.places, same]
      exact ⟨holds.order, holds.chooses.imp_left (same ▸ ·), shown, places ▸ housed, .nothing absent⟩
    · have unfilled : stored.index.backup = none := absent
      simpa [unfilled] using fun full => room (crowded.mpr full)

/-- What taking in an entry comes to: it fails without an effect, or adds the entry of the draft. -/
theorem Holds.takeIn_result (holds : table.Holds slots none taken) (draft : Draft) :
    (∃ failure, Table.takeIn draft (refuseRepeated · draft.bytes)
        (fun _ table => house table draft.handle) table = (table, .error failure) ∧
      ¬ table.Crowds draft ∧ (failure = .duplicateKey .cuckooTable ↔ Repeats taken draft.bytes)) ∨
    ∃ (now : CuckooTable) (held : Nat → Option Bytes) (backup : Option Bytes),
      Table.takeIn draft (refuseRepeated · draft.bytes)
        (fun _ table => house table draft.handle) table = (now, .ok ()) ∧
      now.Holds held backup (taken ++ [draft.bytes]) ∧ ¬ Repeats taken draft.bytes ∧
      (now.index.backup.isSome ↔ table.Crowds draft) := by
  cases user : entryUserKey draft.bytes with
  | error failure =>
    refine .inl ⟨failure, by simp [Table.takeIn, refuseRepeated, user, bind, Except.bind], ?_, ?_, ?_⟩
    · rintro ⟨_, userKey, cut, _⟩
      cases user.symm.trans cut
    · rintro rfl
      cases eq_outOfRange_of_entryUserKey user
    · rintro ⟨userKey, _, cut, _⟩
      cases user.symm.trans cut
  | ok userKey =>
    rcases refuseRepeated_cases holds.order holds.chooses holds.shown holds.housed user with
      ⟨repeats, roomy, refused⟩ | ⟨fresh, goesOn⟩
    · exact .inl ⟨_, by simp only [Table.takeIn, refused], roomy, fun _ => repeats, fun _ => rfl⟩
    · cases added : table.shelf.arena.publish draft with
      | error failure =>
        refine .inl ⟨failure, ?_, ?_, ?_, fun repeats => absurd repeats fresh⟩
        · simp [Table.takeIn, goesOn, Table.publish, added, bind, Except.bind]
        · rintro ⟨⟨arena, done⟩, _⟩
          cases added.symm.trans done
        · rintro rfl
          rcases Arena.publish_refused added with foreign | taken
          · cases foreign
          · cases taken
      | ok arena =>
        have published : table.publish draft = .ok { table with
            shelf := { table.shelf with arena } } := by
          simp only [Table.publish, added]
          rfl
        obtain ⟨now, held, backup, done, after, overflows⟩ := holds.house_ok user published
        refine .inr ⟨now, held, backup, Table.takeIn_ok goesOn published done, after, fresh,
          overflows.trans ⟨?_, ?_⟩⟩
        · exact fun crowded => ⟨⟨arena, added⟩, userKey, user, crowded⟩
        · rintro ⟨_, same, cut, crowded⟩
          obtain rfl := Except.ok.inj (user.symm.trans cut)
          exact crowded

theorem insert_closed (closed : table.isReadOnly = true) (draft : Draft) :
    insert draft table = (table, .error (.readOnly .cuckoo)) :=
  Table.asWriter_closed .cuckoo _ closed

theorem insert_userKey (table : CuckooTable) (draft : Draft) {entry : Bytes}
    (member : entry ∈ gained draft (insert draft table).2) :
    ∃ userKey, entryUserKey entry = .ok userKey := by
  rcases Table.asWriter_takeIn .cuckoo draft _ _ table with
    ⟨failure, failed, _⟩ | ⟨gate, _, _, _, _, asked, _⟩
  · rw [insert, failed] at member
    cases member
  · simp only [refuseRepeated, bind_eq_ok] at asked
    obtain ⟨userKey, cut, _⟩ := asked
    cases gained_eq member
    exact ⟨userKey, cut⟩

/-- An insert into an open table has no effect, or makes its entry the latest version of its user
key; it goes to the backup if the user key finds no room. -/
theorem Holds.insert_open (holds : table.Holds slots spare taken)
    (opened : table.isReadOnly = false) (vacant : table.gate.occupied = false) (draft : Draft) :
    (∃ failure, insert draft table = (table, .error failure) ∧ ¬ table.Crowds draft ∧
      (failure = .duplicateKey .cuckooTable ↔ Repeats taken draft.bytes)) ∨
    ∃ now held backup, insert draft table = (now, .ok ()) ∧
      now.Holds held backup (taken ++ [draft.bytes]) ∧ now.gate.occupied = false ∧
      ¬ Repeats taken draft.bytes ∧ (now.index.backup.isSome ↔ table.Crowds draft) := by
  have unspared : spare = none := by
    cases holds.backup with
    | nothing _ => rfl
    | one closed => cases opened.symm.trans closed
  subst unspared
  let entered : CuckooTable := { table with gate := ⟨false, true⟩ }
  have inside : entered.Holds slots none taken :=
    holds.keeps rfl (fun found => found) fun closed => opened ▸ closed
  have sameCrowds : entered.Crowds draft ↔ table.Crowds draft := by
    have crowded : ∀ userKey, entered.Crowded userKey ↔ table.Crowded userKey := fun _ =>
      holds.shown.crowded_iff inside.shown rfl
    constructor
    · rintro ⟨published, userKey, user, full⟩
      exact ⟨published, userKey, user, (crowded userKey).mp full⟩
    · rintro ⟨published, userKey, user, full⟩
      exact ⟨published, userKey, user, (crowded userKey).mpr full⟩
  rw [insert, Table.asWriter_open .cuckoo _ opened vacant]
  rcases inside.takeIn_result draft with
    ⟨failure, failed, roomy, repeats⟩ | ⟨now, held, backup, done, after, rest⟩
  · refine .inl ⟨failure, ?_, fun crowds => roomy (sameCrowds.mpr crowds), repeats⟩
    rw [failed]
    obtain ⟨shelf, ⟨readOnly, occupied⟩, log, index⟩ := table
    obtain rfl : readOnly = false := opened
    obtain rfl : occupied = false := vacant
    rfl
  · rw [done]
    refine .inr ⟨_, held, backup, rfl, ?_, rfl, rest.1, rest.2.trans sameCrowds⟩
    exact after.keeps rfl (fun found => found) fun closed => closed

end Insert

end CuckooTable

end WriteBuffer
