import Mathlib
import WriteBuffer.Proofs.Room
import WriteBuffer.Proofs.Runs
import WriteBuffer.Proofs.Table.Cuckoo
import WriteBuffer.Proofs.Table.EmptyLists

/-!
Inserts that happen as a whole or not at all. Whatever an insert looks up, it looks up before it
publishes its entry, and what it does afterwards cannot fail in a sound table (`MemTable.Sound`).
So a failed insert leaves a table as it was, but for a list without nodes
(`MemTable.Sound.insert_cases`), and every table that can be reached is sound (`MemTable.Sound.run`).
-/
namespace WriteBuffer

variable {draft : Draft}

/-- An insert changes nothing when it fails, and leaves room when it succeeds. It fails only in a
read-only table, for an entry without a place in the list, or for a draft that cannot be published. -/
theorem SkipTable.insert_whole {table : SkipTable} (vacant : table.gate.occupied = false)
    (roomy : Roomy table.shelf.arena table.index.nodes) (usable : draft.handle ≠ .nowhere) :
    (∃ failure, insert draft table = (table, .error failure) ∧
      (table.isReadOnly = true ∨
        table.index.list.spliceFor table.index.nodes table.shelf draft.bytes = .error failure ∨
        table.shelf.arena.publish draft = .error failure)) ∨
    ∃ now, insert draft table = (now, .ok ()) ∧ now.gate = {} ∧
      Roomy now.shelf.arena now.index.nodes := by
  refine (Table.asWriter_whole _ _ _ _ vacant ?_).imp_right ?_
  · intro splice arena found stored
    obtain ⟨inserted, done⟩ := SkipList.insertAt_succeeds found table.index.heights draft.handle
      fun node => (roomy.publish usable stored node).imp fun _ => Exists.imp fun _ => And.left
    exact ⟨_, bind_eq_ok.mpr ⟨inserted, done, rfl⟩⟩
  · rintro ⟨splice, arena, changed, found, stored, done, inserted⟩
    obtain ⟨⟨nodes, list, height⟩, linked, same⟩ := bind_eq_ok.mp done
    obtain rfl := Except.ok.inj same
    exact ⟨_, inserted, rfl, SkipList.insertAt_roomy linked (roomy.publish usable stored)⟩

theorem VectorTable.insert_whole {table : VectorTable} (vacant : table.gate.occupied = false) :
    (∃ failure, insert draft table = (table, .error failure) ∧
      (table.isReadOnly = true ∨ table.index.sorted = true ∨
        table.shelf.arena.publish draft = .error failure)) ∨
    ∃ now, insert draft table = (now, .ok ()) ∧ now.gate = {} ∧ now.index.sorted = false := by
  rcases Table.asWriter_whole .vector draft
      (fun table : VectorTable => if table.index.sorted then .error .alreadySorted else .ok ())
      (fun _ table => .ok { table with index := table.index.push draft.handle }) vacant
      fun _ _ => ⟨_, rfl⟩ with
    ⟨failure, kept, reason⟩ | ⟨_, _, changed, asked, _, done, inserted⟩
  · refine .inl ⟨failure, kept, reason.imp_right (Or.imp_left fun asked => ?_)⟩
    by_contra unsorted
    simp [unsorted] at asked
  · obtain rfl := Except.ok.inj done
    exact .inr ⟨_, inserted, rfl, by simpa [VectorIndex.push] using asked⟩

theorem HashedChainTable.insert_whole {table : HashedChainTable}
    (vacant : table.gate.occupied = false) (roomy : Roomy table.shelf.arena table.index.nodes)
    (usable : draft.handle ≠ .nowhere) :
    (∃ failure, insert draft table = (table, .error failure) ∧
      (table.isReadOnly = true ∨ table.placeFor draft.bytes = .error failure ∨
        table.shelf.arena.publish draft = .error failure)) ∨
    ∃ now, insert draft table = (now, .ok ()) ∧ now.gate = {} ∧
      Roomy now.shelf.arena now.index.nodes := by
  have linked : ∀ (bucket : Nat) (gap : Option NodeId × Option NodeId) {arena : Arena},
      table.shelf.arena.publish draft = .ok arena →
      ∃ index, table.index.link bucket gap draft.handle = .ok index ∧ Roomy arena index.nodes := by
    intro bucket gap arena stored
    obtain ⟨nodes, id, pushed, left⟩ := roomy.publish usable stored ⟨draft.handle, gap.2⟩
    refine ⟨({ table.index with nodes }).relink bucket gap.1 id, ?_, ?_⟩
    · simp only [HashedChainIndex.link, pushed]
    · simp only [HashedChainIndex.relink]
      split
      · exact left
      · exact left.update ..
  refine (Table.asWriter_whole _ _ _ _ vacant ?_).imp_right ?_
  · rintro ⟨bucket, gap⟩ arena _ stored
    obtain ⟨index, done, _⟩ := linked bucket gap stored
    exact ⟨_, bind_eq_ok.mpr ⟨index, done, rfl⟩⟩
  · rintro ⟨⟨bucket, gap⟩, arena, changed, _, stored, done, inserted⟩
    obtain ⟨index, there, left⟩ := linked bucket gap stored
    obtain ⟨other, here, same⟩ := bind_eq_ok.mp done
    obtain rfl := Except.ok.inj (there.symm.trans here)
    obtain rfl := Except.ok.inj same
    exact ⟨_, inserted, rfl, left⟩

theorem HashedSkipTable.insertInto_whole {table : HashedSkipTable}
    (roomy : Roomy table.shelf.arena table.index.nodes) (usable : draft.handle ≠ .nowhere)
    (bucket : Nat) (list : SkipList) (taken : Nat) :
    (∃ failure, insertInto draft bucket list taken table = (table, .error failure) ∧
      (list.spliceFor table.index.nodes table.shelf draft.bytes = .error failure ∨
        table.shelf.arena.publish draft = .error failure)) ∨
    ∃ now, insertInto draft bucket list taken table = (now, .ok ()) ∧ now.gate = table.gate ∧
      Roomy now.shelf.arena now.index.nodes ∧ (table.MakesLists → now.MakesLists) := by
  refine (Table.takeIn_whole _ _ _ ?_).imp_right ?_
  · intro splice arena found stored
    obtain ⟨inserted, done⟩ := SkipList.insertAt_succeeds found table.index.heights draft.handle
      fun node => (roomy.publish usable stored node).imp fun _ => Exists.imp fun _ => And.left
    exact ⟨_, bind_eq_ok.mpr ⟨inserted, done, rfl⟩⟩
  · rintro ⟨splice, arena, changed, found, stored, done, inserted⟩
    obtain ⟨⟨nodes, grown, height⟩, linked, same⟩ := bind_eq_ok.mp done
    obtain rfl := Except.ok.inj same
    exact ⟨_, inserted, rfl, SkipList.insertAt_roomy linked (roomy.publish usable stored),
      fun makes => makes⟩

/-- An insert that fails leaves a table as it was, but for a list without nodes. -/
theorem HashedSkipTable.insert_whole {table : HashedSkipTable}
    (vacant : table.gate.occupied = false) (roomy : Roomy table.shelf.arena table.index.nodes)
    (usable : draft.handle ≠ .nowhere) :
    (∃ left failure, insert draft table = (left, .error failure) ∧ table.Alike left ∧
      (table.isReadOnly = true ∨ offer table draft.bytes = .error failure ∨
        (∃ bucket list taken, offer table draft.bytes = .ok (bucket, list, taken) ∧
          list.spliceFor table.index.nodes table.shelf draft.bytes = .error failure) ∨
        table.shelf.arena.publish draft = .error failure)) ∨
    ∃ now, insert draft table = (now, .ok ()) ∧ now.gate = {} ∧
      Roomy now.shelf.arena now.index.nodes ∧ (table.MakesLists → now.MakesLists) := by
  by_cases closed : table.isReadOnly = true
  · exact .inl ⟨table, _, Table.asWriter_closed _ _ closed, .refl table, .inl closed⟩
  · have opened : table.gate.readOnly = false := Bool.eq_false_of_not_eq_true closed
    have unchanged := Table.leave_entered opened vacant
    cases offered : offer table draft.bytes with
    | error failure =>
      refine .inl ⟨table, failure, ?_, .refl table, .inr (.inl rfl)⟩
      have refused : offer { table with gate := ⟨false, true⟩ } draft.bytes = .error failure := offered
      rw [insert, Table.asWriter_open _ _ opened vacant]
      simp only [refused, unchanged]
    | ok target =>
      obtain ⟨bucket, list, taken⟩ := target
      have given : offer { table with gate := ⟨false, true⟩ } draft.bytes
          = .ok (bucket, list, taken) := offered
      let entered : HashedSkipTable := setList { table with gate := ⟨false, true⟩ } bucket list
      have enteredRoomy : Roomy entered.shelf.arena entered.index.nodes := roomy
      rw [insert, Table.asWriter_open _ _ opened vacant]
      simp only [given]
      rcases insertInto_whole enteredRoomy usable bucket list taken with
        ⟨failure, kept, reason⟩ | ⟨now, done, gate, left, lists⟩
      · refine .inl ⟨setList table bucket list, failure, ?_, .ofOffered (listAt_of_offer offered), ?_⟩
        · rw [kept, ← unchanged]
          rfl
        · exact .inr (.inr (reason.imp_left fun refused => ⟨bucket, list, taken, rfl, refused⟩))
      · rw [done]
        exact .inr ⟨_, rfl, congrArg Gate.leave gate, left, lists⟩

namespace CuckooTable

variable {table : CuckooTable} {handle : Handle} {entry userKey : Bytes}

/-- Every occupant of a slot can be read and has a user key. -/
def Legible (table : CuckooTable) : Prop :=
  ∀ {slot handle}, table.index.slots.get? slot = some handle →
    ∃ entry userKey, table.shelf.arena.get handle = .ok entry ∧ entryUserKey entry = .ok userKey

theorem candidates_ok {index : CuckooIndex} {among : List Nat}
    (chosen : index.candidates userKey = .ok among) (other : Bytes) :
    ∃ among, index.candidates other = .ok among := by
  simp only [CuckooIndex.candidates] at chosen ⊢
  split at chosen
  · cases chosen
  · next some => exact ⟨_, if_neg some⟩

theorem Legible.shows (legible : table.Legible) : ∃ slots, table.Shows slots ∧
    ∀ {slot entry}, slots slot = some entry → ∃ userKey, entryUserKey entry = .ok userKey := by
  refine ⟨fun slot => (table.index.slots.get? slot).bind fun handle =>
    (table.shelf.arena.get handle).toOption, fun slot => ?_, fun {slot entry} found => ?_⟩
  · cases full : table.index.slots.get? slot with
    | none => simp only [entryAt, full, Option.bind_none]
    | some handle =>
      obtain ⟨entry, _, read, _⟩ := legible full
      simp only [entryAt, full, Option.bind_some, read, Except.map, Except.toOption]
  · cases full : table.index.slots.get? slot with
    | none => simp [full] at found
    | some handle =>
      obtain ⟨other, userKey, read, user⟩ := legible full
      simp only [full, Option.bind_some, read, Except.toOption, Option.some.injEq] at found
      exact ⟨userKey, found ▸ user⟩

/-- Where every occupant can be read, the slot of a user key is found, if one of its candidates is. -/
theorem Legible.findUserKey_cases (legible : table.Legible) {among : List Nat}
    (chosen : table.index.candidates userKey = .ok among) :
    (∃ slot entry, table.findUserKey userKey = .ok (some (slot, entry)) ∧ slot ∈ among ∧
      table.entryAt slot = .ok (some entry) ∧ entryUserKey entry = .ok userKey) ∨
    table.findUserKey userKey = .ok none ∧ ∀ slot ∈ among, ∀ entry,
      table.entryAt slot = .ok (some entry) → entryUserKey entry ≠ .ok userKey := by
  obtain ⟨slots, shown, named⟩ := legible.shows
  have tests : ∀ slot entry, slots slot = some entry → ∃ passed,
      (do return (← entryUserKey entry) == userKey : Except Failure Bool) = .ok passed ∧
        (passed = true ↔ entryUserKey entry = .ok userKey) := by
    intro slot entry found
    obtain ⟨key, cut⟩ := named found
    exact ⟨key == userKey, by rw [cut]; rfl, by simp [cut]⟩
  simp only [findUserKey, chosen]
  refine (shown.findSlot_cases tests among).imp ?_ ?_
  · rintro ⟨slot, entry, found, member, full, user⟩
    exact ⟨slot, entry, found, member, (shown slot).trans (congrArg _ full), user⟩
  · rintro ⟨nothing, absent⟩
    refine ⟨nothing, fun slot member entry full => ?_⟩
    exact absent slot member entry (Except.ok.inj ((shown slot).symm.trans full))

theorem Legible.choices_ok (legible : table.Legible)
    (chooses : ∀ userKey, ∃ among, table.index.candidates userKey = .ok among) (slot : Nat) :
    ∃ among, choices table slot = .ok among := by
  obtain ⟨slots, shown, named⟩ := legible.shows
  simp only [choices, shown slot, bind, Except.bind]
  cases found : slots slot with
  | none => exact ⟨[], rfl⟩
  | some occupant =>
    obtain ⟨key, cut⟩ := named found
    simp only [cut]
    exact chooses key

/-- The search for a slot ends where every occupant can be read. -/
theorem Legible.settle_ok (legible : table.Legible)
    (chooses : ∀ userKey, ∃ among, table.index.candidates userKey = .ok among)
    (read : table.shelf.arena.get handle = .ok entry) (user : entryUserKey entry = .ok userKey) :
    ∃ settled, settle table handle = .ok settled := by
  obtain ⟨among, chosen⟩ := chooses userKey
  obtain ⟨room, roomy⟩ := findRoom_ok table.index.isFull (legible.choices_ok chooses) among
  simp only [settle, read, user, bind, Except.bind]
  rcases legible.findUserKey_cases chosen with ⟨slot, other, found, _⟩ | ⟨nothing, _⟩
  · exact ⟨_, by simp only [found]; rfl⟩
  · simp only [nothing, chosen]
    cases among.find? (!table.index.isFull ·) with
    | some slot => exact ⟨_, rfl⟩
    | none =>
      simp only [roomy]
      cases room <;> exact ⟨_, rfl⟩

/-- A published entry is always housed, and every occupant can be read then. -/
theorem Legible.house_ok (legible : table.Legible)
    (chooses : ∀ userKey, ∃ among, table.index.candidates userKey = .ok among)
    (read : table.shelf.arena.get handle = .ok entry) (user : entryUserKey entry = .ok userKey) :
    ∃ now, house table handle = .ok now ∧ now.Legible := by
  obtain ⟨settled, done⟩ := legible.settle_ok chooses read user
  cases settled with
  | none =>
    obtain ⟨backup, log, spilled, _⟩ := spill_ok table read
    exact ⟨_, bind_eq_ok.mpr ⟨none, done, spilled⟩, legible⟩
  | some now =>
    refine ⟨now, bind_eq_ok.mpr ⟨some now, done, rfl⟩, ?_⟩
    obtain ⟨slots, longestChain, rfl, _, fromBefore⟩ := settle_changes done
    intro slot found full
    rcases fromBefore full with rfl | ⟨source, before⟩
    · exact ⟨entry, userKey, read, user⟩
    · exact legible before

theorem findSlot_congr {a b : CuckooTable} (same : a.entryAt = b.entryAt)
    (test : Bytes → Except Failure Bool) (among : List Nat) :
    a.findSlot test among = b.findSlot test among := by
  induction among with
  | nil => rfl
  | cons slot rest ih =>
    simp only [findSlot, same]
    refine bind_congr fun content => ?_
    cases content with
    | none => exact ih
    | some entry =>
      refine bind_congr fun passed => ?_
      rw [ih]

theorem refuseRepeated_entered (table : CuckooTable) (gate : Gate) (entry : Bytes) :
    refuseRepeated { table with gate } entry = table.refuseRepeated entry := by
  have same : ∀ test among, findSlot { table with gate } test among = table.findSlot test among :=
    findSlot_congr rfl
  simp only [refuseRepeated, findUserKey, same]

/-- An insert fails and leaves the table as it was, or houses its entry, which was published just
before, and does nothing else. -/
theorem insert_houses (vacant : table.gate.occupied = false) (legible : table.Legible) :
    (∃ failure, insert draft table = (table, .error failure) ∧
      (table.isReadOnly = true ∨ table.refuseRepeated draft.bytes = .error failure ∨
        table.shelf.arena.publish draft = .error failure)) ∨
    ∃ stored now userKey among, table.Stays stored ∧
      stored.shelf.arena.get draft.handle = .ok draft.bytes ∧
      entryUserKey draft.bytes = .ok userKey ∧ table.index.candidates userKey = .ok among ∧
      house stored draft.handle = .ok now ∧ now.Legible ∧
      insert draft table = ({ now with gate := now.gate.leave }, .ok ()) := by
  have housed : ∀ {arena}, table.refuseRepeated draft.bytes = .ok () →
      table.shelf.arena.publish draft = .ok arena → ∃ now userKey among,
        arena.get draft.handle = .ok draft.bytes ∧ table.shelf.arena.Keeps arena ∧
        entryUserKey draft.bytes = .ok userKey ∧ table.index.candidates userKey = .ok among ∧
        house { table with gate := ⟨false, true⟩, shelf := { table.shelf with arena } } draft.handle
          = .ok now ∧ now.Legible := by
    intro arena asked stored
    obtain ⟨read, keeps⟩ := Arena.get_publish stored
    simp only [refuseRepeated, bind_eq_ok, findUserKey] at asked
    obtain ⟨userKey, user, _, ⟨among, chosen, _⟩, _⟩ := asked
    have kept : Legible { table with
        gate := ⟨false, true⟩, shelf := { table.shelf with arena } } := by
      intro slot handle full
      obtain ⟨entry, key, found, cut⟩ := legible full
      exact ⟨entry, key, keeps found, cut⟩
    obtain ⟨now, done, left⟩ := kept.house_ok (candidates_ok chosen) read user
    exact ⟨now, userKey, among, read, keeps, user, chosen, done, left⟩
  rw [← refuseRepeated_entered table ⟨false, true⟩] at housed ⊢
  refine (Table.asWriter_whole .cuckoo draft (refuseRepeated · draft.bytes)
    (fun _ table => house table draft.handle) vacant ?_).imp_right ?_
  · intro _ arena asked stored
    obtain ⟨now, _, _, _, _, _, _, done, _⟩ := housed asked stored
    exact ⟨now, done⟩
  · rintro ⟨_, arena, changed, asked, stored, done, inserted⟩
    obtain ⟨now, userKey, among, read, keeps, user, chosen, same, left⟩ := housed asked stored
    obtain rfl := Except.ok.inj (same.symm.trans done)
    exact ⟨{ table with gate := ⟨false, true⟩, shelf := { table.shelf with arena } }, now, userKey,
      among, ⟨rfl, fun found => keeps found, rfl⟩, read, user, chosen, same, left, inserted⟩

theorem insert_whole (vacant : table.gate.occupied = false) (legible : table.Legible) :
    (∃ failure, insert draft table = (table, .error failure) ∧
      (table.isReadOnly = true ∨ table.refuseRepeated draft.bytes = .error failure ∨
        table.shelf.arena.publish draft = .error failure)) ∨
    ∃ now, insert draft table = (now, .ok ()) ∧ now.gate.occupied = false ∧ now.Legible := by
  refine (insert_houses vacant legible).imp_right ?_
  rintro ⟨_, now, _, _, _, _, _, _, _, left, inserted⟩
  exact ⟨_, inserted, rfl, left⟩

end CuckooTable

namespace MemTable

variable {table left : MemTable}

def gate (table : MemTable) : Gate := table.read Table.gate

/-- What an insert relies on once it has looked everything up. -/
def IndexSound : MemTable → Prop
  | skipList table => Roomy table.shelf.arena table.index.nodes
  | vector _ => True
  | hashedSkipLists table => Roomy table.shelf.arena table.index.nodes
  | hashedChains table => Roomy table.shelf.arena table.index.nodes
  | cuckoo table => table.Legible

/-- A table without a writer in which only the look-up for an insert can fail. -/
structure Sound (table : MemTable) : Prop where
  vacant : table.gate.occupied = false
  index : table.IndexSound

/-- A table of any kind as it is made, for any order. -/
inductive Made : MemTable → Prop
  | ordered {order : KeyOrder} {table : MemTable} (fresh : Fresh order table) : Made table
  | cuckoo {shelf : Shelf} {hash : UInt64 → Bytes → UInt64} {heights : Heights}
    {slots hashCount : Nat} {table : CuckooTable}
    (made : CuckooTable.create shelf hash heights slots hashCount = .ok table) : Made (cuckoo table)

theorem Made.sound (made : Made table) : table.Sound := by
  cases made with
  | cuckoo made =>
    obtain rfl := CuckooTable.create_ok made
    refine ⟨rfl, ?_⟩
    intro slot handle full
    cases full
  | ordered fresh =>
    cases fresh with
    | skipList heights ordered => exact ⟨rfl, roomy_empty _⟩
    | vector ordered made =>
      obtain rfl := VectorTable.create_ok made
      exact ⟨rfl, trivial⟩
    | hashedSkipLists ordered made =>
      simp only [HashedSkipTable.create, bind_eq_ok, pure, Except.pure, Except.ok.injEq] at made
      obtain ⟨_, _, rfl⟩ := made
      exact ⟨rfl, roomy_empty _⟩
    | hashedChains ordered made =>
      simp only [HashedChainTable.create, bind_eq_ok, pure, Except.pure, Except.ok.injEq] at made
      obtain ⟨_, _, rfl⟩ := made
      split <;> exact ⟨rfl, roomy_empty _⟩

/-- Two tables agree but for lists without nodes. -/
inductive Alike : MemTable → MemTable → Prop
  | same (table : MemTable) : Alike table table
  | hashedSkipLists {a b : HashedSkipTable} (alike : a.Alike b) :
    Alike (hashedSkipLists a) (hashedSkipLists b)

theorem Sound.alike (sound : table.Sound) (alike : table.Alike left) : left.Sound := by
  cases alike with
  | same => exact sound
  | @hashedSkipLists a b alike =>
    have vacant : b.gate.occupied = false := alike.gate ▸ sound.vacant
    have roomy : Roomy b.shelf.arena b.index.nodes := by
      rw [alike.shelf, alike.nodes]
      exact sound.index
    exact ⟨vacant, roomy⟩

/-- The index of a table has no place for an entry. -/
def Refuses (entry : Bytes) (failure : Failure) : MemTable → Prop
  | skipList table => table.index.list.spliceFor table.index.nodes table.shelf entry = .error failure
  | vector table => table.index.sorted = true
  | hashedSkipLists table => HashedSkipTable.offer table entry = .error failure ∨
    ∃ bucket list taken, HashedSkipTable.offer table entry = .ok (bucket, list, taken) ∧
      list.spliceFor table.index.nodes table.shelf entry = .error failure
  | hashedChains table => HashedChainTable.placeFor table entry = .error failure
  | cuckoo table => CuckooTable.refuseRepeated table entry = .error failure

/-- An ordered table that has no writer and takes entries, and can make what they are put into. -/
def Ready : MemTable → Prop
  | skipList table => table.gate = {}
  | vector table => table.gate = {} ∧ table.index.sorted = false
  | hashedSkipLists table => table.gate = {} ∧ table.MakesLists
  | hashedChains table => table.gate = {}
  | cuckoo _ => False

/-- An insert into a sound table fails and leaves it as it was, but for a list without nodes, or is
carried out. It fails only in a read-only table, for an entry without a place in the index, or for a
draft that cannot be published. -/
theorem Sound.insert_cases (sound : table.Sound) {draft : Draft} (usable : draft.handle ≠ .nowhere) :
    (∃ left failure, table.insert draft = (left, .error failure) ∧ table.Alike left ∧
      (table.isReadOnly = true ∨ table.Refuses draft.bytes failure ∨
        table.arena.publish draft = .error failure)) ∨
      ∃ now, table.insert draft = (now, .ok ()) ∧ now.Sound ∧ (table.Ready → now.Ready) := by
  obtain ⟨vacant, index⟩ := sound
  cases table with
  | skipList table =>
    rcases SkipTable.insert_whole vacant index usable with
      ⟨failure, kept, reason⟩ | ⟨now, done, gate, roomy⟩
    · exact .inl ⟨_, failure, by rw [insert, kept]; rfl, .same _, reason⟩
    · exact .inr ⟨skipList now, by rw [insert, done]; rfl, ⟨congrArg Gate.occupied gate, roomy⟩,
        fun _ => gate⟩
  | vector table =>
    rcases @VectorTable.insert_whole draft table vacant with
      ⟨failure, kept, reason⟩ | ⟨now, done, gate, unsorted⟩
    · exact .inl ⟨_, failure, by rw [insert, kept]; rfl, .same _, reason⟩
    · exact .inr ⟨vector now, by rw [insert, done]; rfl, ⟨congrArg Gate.occupied gate, trivial⟩,
        fun _ => ⟨gate, unsorted⟩⟩
  | hashedSkipLists table =>
    rcases HashedSkipTable.insert_whole vacant index usable with
      ⟨left, failure, kept, alike, reason⟩ | ⟨now, done, gate, roomy, lists⟩
    · exact .inl ⟨hashedSkipLists left, failure, by rw [insert, kept]; rfl,
        .hashedSkipLists alike, reason.imp_right or_assoc.mpr⟩
    · exact .inr ⟨hashedSkipLists now, by rw [insert, done]; rfl,
        ⟨congrArg Gate.occupied gate, roomy⟩, fun ready => ⟨gate, lists ready.2⟩⟩
  | hashedChains table =>
    rcases HashedChainTable.insert_whole vacant index usable with
      ⟨failure, kept, reason⟩ | ⟨now, done, gate, roomy⟩
    · exact .inl ⟨_, failure, by rw [insert, kept]; rfl, .same _, reason⟩
    · exact .inr ⟨hashedChains now, by rw [insert, done]; rfl,
        ⟨congrArg Gate.occupied gate, roomy⟩, fun _ => gate⟩
  | cuckoo table =>
    rcases @CuckooTable.insert_whole draft table vacant index with
      ⟨failure, kept, reason⟩ | ⟨now, done, vacant, legible⟩
    · exact .inl ⟨_, failure, by rw [insert, kept]; rfl, .same _, reason⟩
    · exact .inr ⟨cuckoo now, by rw [insert, done]; rfl, ⟨vacant, legible⟩, False.elim⟩

/-- Handing out a cursor keeps a table sound, even where it sorts. -/
theorem Sound.openCursor (sound : table.Sound) (range : Range) : (table.openCursor range).1.Sound := by
  cases table with
  | vector table =>
    have sorted : (VectorTable.sortedHandles table).1.gate.occupied = false := by
      rw [(VectorTable.sortedHandles_same table).2]
      exact sound.vacant
    exact ⟨sorted, trivial⟩
  | skipList table | hashedSkipLists table | hashedChains table | cuckoo table => exact sound

/-- Any operation keeps a table sound, as long as drafts are those that were handed out. -/
theorem Sound.perform (sound : table.Sound) (operation : Operation)
    (issued : ∀ draft, operation = .insert draft → draft.Issued) :
    (table.perform operation).Sound := by
  cases operation with
  | insert draft =>
    rcases sound.insert_cases (issued draft rfl).ne_nowhere with
      ⟨left, failure, failed, alike, _⟩ | ⟨now, done, after, _⟩
    · rw [MemTable.perform, failed]
      exact sound.alike alike
    · rw [MemTable.perform, done]
      exact after
  | allocate size =>
    have keeps := fun {arena : Arena} => @Arena.keeps_allocate arena size
    obtain ⟨vacant, index⟩ := sound
    cases table with
    | vector table => exact ⟨vacant, trivial⟩
    | skipList table | hashedSkipLists table | hashedChains table =>
      exact ⟨vacant, Roomy.keeps index keeps⟩
    | cuckoo table =>
      refine ⟨vacant, ?_⟩
      intro slot handle full
      obtain ⟨entry, userKey, found, cut⟩ := index full
      exact ⟨entry, userKey, keeps found, cut⟩
  | contains internalKey =>
    have opened := sound.openCursor .all
    cases table <;> exact opened
  | get key goesOn =>
    simp only [MemTable.perform, MemTable.get]
    cases key.userKey with
    | error failure => exact sound
    | ok userKey =>
      have opened := sound.openCursor (.bucketOf userKey)
      cases table <;> exact opened
  | openCursor range => exact sound.openCursor range
  | close =>
    obtain ⟨vacant, index⟩ := sound
    cases table with
    | vector table =>
      simp only [MemTable.perform, MemTable.close, VectorTable.close]
      split
      · exact ⟨vacant, trivial⟩
      · have closed : (vector (Table.close .vector table)).Sound := ⟨vacant, trivial⟩
        exact closed.openCursor .all
    | skipList table | hashedSkipLists table | hashedChains table | cuckoo table =>
      exact ⟨vacant, index⟩

/-- Every table that can be reached is sound. -/
theorem Sound.run (sound : table.Sound) (operations : List Operation)
    (issued : ∀ draft, .insert draft ∈ operations → draft.Issued) : (table.run operations).Sound := by
  induction operations generalizing table with
  | nil => exact sound
  | cons operation rest ih =>
    refine ih (sound.perform operation fun draft same => issued draft ?_) fun draft member =>
      issued draft (List.mem_cons_of_mem _ member)
    exact same ▸ List.mem_cons_self

end MemTable

end WriteBuffer
