import Mathlib
import WriteBuffer.Proofs.Adding
import WriteBuffer.Proofs.LatestVersions

/-!
What tables of different kinds agree on. A cuckoo table keeps the last entry that it took in for a
user key, an ordered one all of them. If the later ones are the newer ones, then that last entry is
the first of the user key that a lookup as of any time shows, whatever the table
(`MemTable.tables_agree_on_latest`).
-/
namespace WriteBuffer

/-- The first of some entries that has a user key. -/
def firstOf (userKey : Bytes) (entries : List Bytes) : Option Bytes :=
  entries.find? fun entry => decide (entryUserKey entry = .ok userKey)

/-- The entry for the last record that has a user key. -/
def lastEntry (userKey : Bytes) (records : List Record) : Option Bytes :=
  (records.reverse.find? (·.userKey = userKey)).bind (·.encode.toOption)

/-- Of two entries of one user key, the later one is the newer version. -/
def NewestLast (entries : List Bytes) : Prop :=
  entries.Pairwise fun a b => entryUserKey a = entryUserKey b → KeyOrder.versioned.Below b a

variable {userKey entry : Bytes} {entries shown : List Bytes} {goesOn : List Bytes → Bool}
  {records : List Record}

theorem firstOf_eq_none : firstOf userKey entries = none ↔
    ∀ entry ∈ entries, entryUserKey entry ≠ .ok userKey := by
  simp [firstOf]

theorem firstOf_append_of_none (absent : firstOf userKey shown = none) (entries : List Bytes) :
    firstOf userKey (shown ++ entries) = firstOf userKey entries := by
  simp only [firstOf] at absent ⊢
  rw [List.find?_append, absent, Option.none_or]

theorem firstOf_cons_of_eq (user : entryUserKey entry = .ok userKey) (entries : List Bytes) :
    firstOf userKey (entry :: entries) = some entry := by
  simp [firstOf, user]

theorem seen_eq_append (goesOn : List Bytes → Bool) (shown entries : List Bytes) :
    ∃ more, seen goesOn shown entries = shown ++ more := by
  induction entries generalizing shown with
  | nil => exact ⟨[], (List.append_nil shown).symm⟩
  | cons entry rest ih =>
    simp only [seen]
    split
    · obtain ⟨more, same⟩ := ih (shown ++ [entry])
      exact ⟨entry :: more, by rw [same, List.append_assoc, List.singleton_append]⟩
    · exact ⟨[entry], rfl⟩

/-- A visitor who goes on until it is shown an entry of a user key sees the first one. -/
theorem firstOf_seen (untilFound : ∀ shown, firstOf userKey shown = none → goesOn shown = true)
    (absent : firstOf userKey shown = none) (entries : List Bytes) :
    firstOf userKey (seen goesOn shown entries) = firstOf userKey entries := by
  induction entries generalizing shown with
  | nil => exact absent
  | cons entry rest ih =>
    by_cases user : entryUserKey entry = .ok userKey
    · obtain ⟨more, same⟩ : ∃ more, seen goesOn shown (entry :: rest) = shown ++ entry :: more := by
        simp only [seen]
        split
        · obtain ⟨more, same⟩ := seen_eq_append goesOn (shown ++ [entry]) rest
          exact ⟨more, by rw [same, List.append_assoc, List.singleton_append]⟩
        · exact ⟨[], rfl⟩
      rw [same, firstOf_append_of_none absent, firstOf_cons_of_eq user, firstOf_cons_of_eq user]
    · have other : firstOf userKey [entry] = none := by simpa [firstOf_eq_none] using user
      have still : firstOf userKey (shown ++ [entry]) = none :=
        (firstOf_append_of_none absent [entry]).trans other
      simp only [seen, untilFound _ still, if_true]
      rw [ih still, ← List.singleton_append, firstOf_append_of_none other]

/-- The first entry of a user key among those in order is the last one that was taken in, if the later
ones are newer. -/
theorem firstOf_sorted {taken : List Bytes} (sorted : KeyOrder.versioned.Sorted entries)
    (readable : ∀ entry ∈ taken, HasKey HasTag entry) (newestLast : NewestLast taken)
    (sub : ∀ entry ∈ entries, entry ∈ taken)
    (all : ∀ entry ∈ taken, entryUserKey entry = .ok userKey → entry ∈ entries) :
    firstOf userKey entries = latest userKey taken := by
  cases isLatest : latest userKey taken with
  | none =>
    refine firstOf_eq_none.mpr fun entry member user => ?_
    have absent : ∀ entry ∈ taken, entryUserKey entry ≠ .ok userKey := by
      simpa [latest] using isLatest
    exact absent entry (sub entry member) user
  | some entry =>
    obtain ⟨user, later, earlier, parts, others⟩ := List.find?_eq_some_iff_append.mp isLatest
    simp only [decide_eq_true_eq] at user
    have inOrder : taken = earlier.reverse ++ entry :: later.reverse := by
      simpa using congrArg List.reverse parts
    have known : entry ∈ taken := by simp [inOrder]
    obtain ⟨front, back, rfl⟩ := List.append_of_mem (all entry known user)
    have above := (List.pairwise_append.mp sorted).2.2
    have nothing : firstOf userKey front = none := by
      refine firstOf_eq_none.mpr fun other member same => ?_
      have below := above other member entry List.mem_cons_self
      have inTaken := sub other (List.mem_append_left _ member)
      have asymm := KeyOrder.versioned_totalOn.below_asymm (readable other inTaken)
        (readable entry known) below
      rw [inOrder] at inTaken
      rcases List.mem_append.mp inTaken with before | after
      · have pairs := inOrder ▸ newestLast
        exact asymm ((List.pairwise_append.mp pairs).2.2 other before entry List.mem_cons_self
          (same.trans user.symm))
      · rcases List.mem_cons.mp after with rfl | after
        · exact asymm below
        · simpa [same] using others other (List.mem_reverse.mp after)
    rw [firstOf_append_of_none nothing, firstOf_cons_of_eq user]

theorem NewestLast.untied (newestLast : NewestLast entries)
    (readable : ∀ entry ∈ entries, HasKey HasTag entry) : KeyOrder.versioned.Untied entries := by
  refine KeyOrder.versioned_untied readable (newestLast.imp_of_mem ?_)
  intro a b inA _ newer same
  obtain ⟨key, cut, tagged⟩ := readable a inA
  have cutAgain := same ▸ cut
  have below := newer ((entryUserKey_eq cut tagged).trans (entryUserKey_eq cutAgain tagged).symm)
  rw [KeyOrder.Below, KeyOrder.compareEntries_eq _ cut, KeyOrder.compareEntryKey_eq _ cutAgain,
    KeyOrder.versioned_totalOn.compare_self tagged] at below
  cases below

section Records

variable (fits : ∀ record ∈ records, record.KeyFits)
include fits

theorem newestLast_entriesOf (increasing : records.Pairwise fun a b => a.sequence < b.sequence) :
    NewestLast (entriesOf records) := by
  refine List.pairwise_filterMap.mpr (increasing.imp_of_mem ?_)
  intro a b inA inB newer x ofA y ofB same
  have spelledA := Record.encode_ok (encode_eq_ok_iff.mp ofA) (fits a inA)
  have spelledB := Record.encode_ok (encode_eq_ok_iff.mp ofB) (fits b inB)
  rw [spelledA.entryUserKey_eq, spelledB.entryUserKey_eq, Except.ok.injEq] at same
  exact (spelledB.below_iff spelledA).mpr (InternalKey.below_of_newer same.symm newer)

theorem latest_entriesOf (storable : ∀ record ∈ records, record.Storable) (userKey : Bytes) :
    latest userKey (entriesOf records) = lastEntry userKey records := by
  rw [latest, entriesOf, ← List.filterMap_reverse, List.find?_filterMap, lastEntry]
  congr 1
  refine List.find?_congr ?_
  intro record member
  have known := List.mem_reverse.mp member
  obtain ⟨entry, encoded⟩ := (storable record known).encoded
  have user := (Record.entryUserKey_iff_keyFits encoded).mpr (fits record known)
  simp [encoded, Except.toOption, user]

end Records

namespace MemTable

/-- Every visitor who looks up a user key as of any time and goes on until it is shown an entry of the
user key is shown a given one as the first, or none. -/
def ShowsFirst (table : MemTable) (userKey : Bytes) (first? : Option Bytes) : Prop :=
  ∃ key, LookupKey.of userKey maxSequence = .ok key ∧
    ∀ goesOn, (∀ shown, firstOf userKey shown = none → goesOn shown = true) →
      ∃ shown, (table.get key goesOn).2 = .ok shown ∧ firstOf userKey shown = first?

variable {placing : Option (Placement × Nat)} {taken : List Bytes} {table : MemTable}
  {target : Bytes}

/-- Where a lookup as of any time splits some entries, all entries of its user key are at the back. -/
theorem mem_back {front back : List Bytes} (split : KeyOrder.versioned.Splits target front back)
    (spelled : InternalKey.decode target = .ok ⟨userKey, maxSequence, .merge⟩)
    (internal : HasKey IsInternalKey entry) (user : entryUserKey entry = .ok userKey)
    (member : entry ∈ front ++ back) : entry ∈ back := by
  refine (List.mem_append.mp member).resolve_left fun inFront => ?_
  obtain ⟨bytes, cut, key, decoded⟩ := internal
  have spelledEntry : SpellsKey entry key := ⟨bytes, cut, decoded⟩
  obtain rfl := Except.ok.inj (spelledEntry.entryUserKey_eq.symm.trans user)
  exact spelledEntry.not_below_lookup spelled (split.below entry inFront)

/-- A cuckoo table first shows the latest entry of a user key. -/
theorem cuckoo_showsFirst {table : CuckooTable} {slots : Nat → Option Bytes} {spare : Option Bytes}
    (holds : table.Holds slots spare taken)
    (internal : ∀ entry ∈ taken, HasKey IsInternalKey entry) (userKey : Bytes) :
    (cuckoo table).ShowsFirst userKey (latest userKey taken) := by
  obtain ⟨key, looked, user, spelled⟩ := LookupKey.of_ok (UInt64.le_refl maxSequence)
  obtain ⟨tagged, _⟩ := InternalKey.decode_ok spelled
  refine ⟨key, looked, fun goesOn untilFound => ?_⟩
  simp only [MemTable.get, user]
  rcases holds.get_cases userKey tagged with
    ⟨slot, entry, full, user, shown⟩ | ⟨absent, front, back, parts, split, shown⟩
  · refine ⟨[entry], shown goesOn, ?_⟩
    rw [firstOf_cons_of_eq user, holds.housed.latest.mpr ⟨user, .inl ⟨slot, full⟩⟩]
  · refine ⟨_, shown goesOn, ?_⟩
    rw [firstOf_seen untilFound rfl]
    cases isLatest : latest userKey taken with
    | none =>
      refine firstOf_eq_none.mpr fun entry member user => ?_
      have spared : spare = some entry := by
        simpa using (parts ▸ List.mem_append_right front member : entry ∈ spare.toList)
      cases isLatest.symm.trans (holds.housed.latest.mpr ⟨user, .inr spared⟩)
    | some entry =>
      obtain ⟨user, ⟨slot, full⟩ | rfl⟩ := holds.housed.latest.mp isLatest
      · exact absurd user (absent slot entry full)
      · have known : entry ∈ taken := List.mem_reverse.mp (List.mem_of_find?_eq_some isLatest)
        have seenAt := mem_back split spelled (internal entry known) user (by simp [← parts])
        rcases List.singleton_eq_append_iff.mp parts with ⟨_, rfl⟩ | ⟨_, rfl⟩
        · exact firstOf_cons_of_eq user []
        · cases seenAt

/-- An ordered table first shows the last entry that it took in of a user key, if the later ones are
newer. -/
theorem Holds.showsFirst (holds : table.Holds .versioned placing taken)
    (internal : ∀ entry ∈ taken, HasKey IsInternalKey entry) (newestLast : NewestLast taken)
    (places : Places placing userKey) : table.ShowsFirst userKey (latest userKey taken) := by
  obtain ⟨key, looked, user, spelled⟩ := LookupKey.of_ok (UInt64.le_refl maxSequence)
  obtain ⟨tagged, _⟩ := InternalKey.decode_ok spelled
  have readable : ∀ entry ∈ taken, HasKey HasTag entry := fun entry member =>
    (internal entry member).mono fun _ => hasTag_of_isInternalKey
  obtain ⟨front, back, split, sorted, shown, sub, all⟩ := holds.get_shows
    KeyOrder.versioned_totalOn readable (newestLast.untied readable) places user tagged
  refine ⟨key, looked, fun goesOn untilFound => ⟨_, shown goesOn, ?_⟩⟩
  rw [firstOf_seen untilFound rfl]
  exact firstOf_sorted sorted readable newestLast sub fun entry member same =>
    mem_back split spelled (internal entry member) same (all entry member same)

/-- If a cuckoo table takes in records with increasing sequence numbers, perhaps with the last of them
in its backup, then every ordered table on a new arena that can make its lists takes them in as well,
as long as it has a bucket for each. Whatever the table, a lookup of a user key as of any time then
shows as the first entry of the user key that for the last record of it, and none if there is no such
record. Only keys of a length that an entry can state are added; a longer one would be read back as another
key (`Record.entryUserKey_iff_keyFits`). -/
theorem tables_agree_on_latest {shelf : Shelf} {hash : UInt64 → Bytes → UInt64} {heights : Heights}
    {count hashCount : Nat} {table : CuckooTable} (ordered : shelf.order = .versioned)
    (positive : 0 < count)
    (made : CuckooTable.create shelf hash heights count hashCount = .ok table)
    (fits : ∀ record ∈ records, record.KeyFits)
    (increasing : records.Pairwise fun a b => a.sequence < b.sequence) {full : MemTable}
    (added : (cuckoo table).addAll records = (full, .ok ())) :
    (∀ userKey, full.ShowsFirst userKey (lastEntry userKey records)) ∧
      ∀ other, Fresh .versioned other → other.arena.entries = .empty → other.MakesLists →
        (∀ record ∈ records, Places other.placing record.userKey) →
          ∃ replayed, other.addAll records = (replayed, .ok ()) ∧
            ∀ userKey, Places other.placing userKey →
              replayed.ShowsFirst userKey (lastEntry userKey records) := by
  have sound := (Made.cuckoo made).sound
  obtain ⟨storable, room⟩ := sound.addAll_room added
  have internal : ∀ entry ∈ entriesOf records, HasKey IsInternalKey entry := by
    intro entry member
    obtain ⟨record, known, encoded⟩ := mem_entriesOf.mp member
    obtain ⟨bytes, cut, decoded⟩ := Record.encode_ok encoded (fits record known)
    exact ⟨bytes, cut, record.internalKey, decoded⟩
  have readable : ∀ entry ∈ entriesOf records, HasKey HasTag entry := fun entry member =>
    (internal entry member).mono fun _ => hasTag_of_isInternalKey
  have newestLast := newestLast_entriesOf fits increasing
  have lastOf := latest_entriesOf fits storable
  constructor
  · intro userKey
    obtain ⟨operations, ran, all⟩ := addAll_run added
    obtain ⟨now, held, backup, same, holds, _⟩ :=
      cuckoo_run (CuckooTable.create_holds made ordered positive) sound.vacant operations
    rw [all, List.nil_append] at holds
    obtain rfl := ran.symm.trans same
    exact lastOf userKey ▸ cuckoo_showsFirst holds internal userKey
  · intro other fresh new lists places
    have enough : records ≠ [] → other.arena.entries.reserved + records.length < UInt32.size := by
      intro some
      have fewer := room some
      rw [new]
      exact Nat.lt_of_le_of_lt (Nat.add_le_add_right (Nat.zero_le _) _) fewer
    have placed : ∀ entry ∈ entriesOf records, ∃ userKey, entryUserKey entry = .ok userKey ∧
        Places other.placing userKey := by
      intro entry member
      obtain ⟨record, known, encoded⟩ := mem_entriesOf.mp member
      exact ⟨record.userKey, (Record.entryUserKey_iff_keyFits encoded).mpr (fits record known),
        places record known⟩
    obtain ⟨replayed, done, holds⟩ := fresh.holds.addAll_accepted KeyOrder.versioned_totalOn
      (fresh.accepting lists new) enough storable readable (newestLast.untied readable) placed
    refine ⟨replayed, done, fun userKey place => ?_⟩
    exact lastOf userKey ▸ holds.showsFirst internal newestLast place

/-- A cuckoo table with one slot, whose last entry is in its backup, first shows the same version of a
user key as a table that keeps an older one as well. -/
theorem two_tables_show_newer_version :
    let slots : CuckooTable := {
      shelf := { order := .versioned, arena := { id := 0 } }
      log := [.creatingCuckooTable 1 1]
      index := { hash := fun _ _ => 0, hashCount := 1, slots := .empty 1, heights := fun _ => 1 } }
    let chains := hashedChains {
      shelf := { order := .versioned, arena := { id := 1 } }
      index := { placement := { rule := .whole, hash := fun _ => 0 }, heads := .empty 1 } }
    let records : List Record := [⟨[97], 1, .put, []⟩, ⟨[97], 2, .delete, []⟩, ⟨[98], 3, .put, []⟩]
    let newer : Bytes := [9, 0, 0, 0, 97, 2, 2, 0, 0, 0, 0, 0, 0, 0, 0, 0, 0]
    ((cuckoo slots).addAll records).1.ShowsFirst [97] (some newer) ∧
      (chains.addAll records).1.ShowsFirst [97] (some newer) := by
  intro slots chains records newer
  have made : CuckooTable.create slots.shelf slots.index.hash slots.index.heights 1 1 = .ok slots :=
    rfl
  have all : ((cuckoo slots).addAll records).2 = .ok () := by decide +kernel
  have fits : ∀ record ∈ records, record.KeyFits := by
    simp [records, Record.KeyFits, tagSize, lengthSize]
  have increasing : records.Pairwise fun a b => a.sequence < b.sequence := by decide +kernel
  have last : lastEntry [97] records = some newer := by decide +kernel
  have fresh : Fresh .versioned chains := @Fresh.hashedChains _ _ _ _ 1 0 rfl rfl
  have places : ∀ userKey, Places chains.placing userKey := by
    intro userKey placement count same
    obtain ⟨rfl, rfl⟩ := Prod.mk.inj (Option.some.inj same)
    exact ⟨by decide, userKey, rfl⟩
  obtain ⟨onSlots, onOthers⟩ := tables_agree_on_latest rfl (by decide) made fits increasing
    (Prod.ext rfl all)
  obtain ⟨replayed, done, onChains⟩ :=
    onOthers chains fresh rfl trivial fun record _ => places record.userKey
  have same : (chains.addAll records).1 = replayed := congrArg Prod.fst done
  exact ⟨last ▸ onSlots [97], same ▸ last ▸ onChains [97] (places [97])⟩

end MemTable

end WriteBuffer
