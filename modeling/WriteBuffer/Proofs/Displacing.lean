import Mathlib
import WriteBuffer.Proofs.Extending
import WriteBuffer.Proofs.LatestVersions
import WriteBuffer.Proofs.Table.Buckets
import WriteBuffer.Proofs.Table.ShortestChains
import WriteBuffer.Proofs.WholeInserts

/-!
Displacements in cuckoo tables. An entry whose slots are all taken by other user keys displaces
occupants exactly if some chain of at most ten moves makes room for it, and then no more of them than
it takes (`CuckooTable.Legible.house_cases`). So the longest chain that a table reports is the longest
of these shortest chains, and its backup has an entry only if every chain was too long
(`MemTable.displaces_shortest_chain`).
-/
namespace WriteBuffer

/-- The slots that were full before and hold something else after. -/
def displaced (before after : Sparse Handle) : List Nat :=
  before.keys.filter fun slot => after.get? slot ≠ before.get? slot

namespace CuckooTable

/-- Every slot that a user key may have is occupied by an entry of another user key. -/
def Blocked (table : CuckooTable) (userKey : Bytes) : Prop :=
  ∃ among, table.index.candidates userKey = .ok among ∧ ∀ slot ∈ among, ∃ entry other,
    table.entryAt slot = .ok (some entry) ∧ entryUserKey entry = .ok other ∧ other ≠ userKey

/-- A chain of slots, the last one first, that makes room for a user key: it may have the first slot,
the occupant of each slot may have the one after it, and that of the last slot an empty one. -/
def MakesRoom (table : CuckooTable) (userKey : Bytes) (path : List Nat) : Prop :=
  ∃ among empty, table.index.candidates userKey = .ok among ∧
    Chain (MayMove (choices table)) among path empty ∧ table.index.isFull empty = false

/-- The numbers of occupants that can be displaced to make room for a user key. -/
def chainLengths (table : CuckooTable) (userKey : Bytes) : Set Nat :=
  {length | ∃ path, table.MakesRoom userKey path ∧ path.length = length}

/-- The table after the moves along a path into an empty slot. -/
def displacing (table : CuckooTable) (handle : Handle) : KickPath × Nat → CuckooTable
  | (path, empty) => { table with index := { table.index with
      slots := displace table.index.slots handle path empty
      longestChain := max table.index.longestChain path.length } }

section Blocked

variable {table now : CuckooTable} {handle : Handle} {entry userKey : Bytes} {among : List Nat}

theorem isFull_of_mayMove {source target : Nat} (moves : MayMove (choices table) source target) :
    table.index.isFull source = true := by
  obtain ⟨among, chosen, member⟩ := moves
  cases full : table.index.slots.get? source with
  | some handle => simp only [CuckooIndex.isFull, full, Option.isSome_some]
  | none =>
    simp only [choices, entryAt, full, bind, Except.bind, pure, Except.pure, Except.ok.injEq] at chosen
    subst chosen
    cases member

theorem isFull_of_entryAt {slot : Nat} (found : table.entryAt slot = .ok (some entry)) :
    table.index.isFull slot = true := by
  simp only [entryAt] at found
  split at found
  · cases found
  · next full => simp only [CuckooIndex.isFull, full, Option.isSome_some]

theorem MakesRoom.occupied {path : List Nat} (makes : table.MakesRoom userKey path) {slot : Nat}
    (onPath : slot ∈ path) : table.index.isFull slot = true := by
  obtain ⟨_, _, _, chain, _⟩ := makes
  obtain ⟨next, moves⟩ := chain.leads onPath
  exact isFull_of_mayMove moves

theorem Blocked.full (blocked : table.Blocked userKey)
    (chosen : table.index.candidates userKey = .ok among) {slot : Nat} (member : slot ∈ among) :
    table.index.isFull slot = true := by
  obtain ⟨same, again, occupied⟩ := blocked
  obtain rfl := Except.ok.inj (chosen.symm.trans again)
  obtain ⟨entry, _, found, _⟩ := occupied slot member
  exact isFull_of_entryAt found

theorem Blocked.length_pos (blocked : table.Blocked userKey) {path : List Nat}
    (makes : table.MakesRoom userKey path) : 1 ≤ path.length := by
  obtain ⟨among, empty, chosen, chain, free⟩ := makes
  cases path with
  | cons source earlier => exact Nat.succ_pos _
  | nil => cases free.symm.trans (blocked.full chosen chain)

theorem Legible.entryAt_stays (legible : table.Legible) (stays : table.Stays now) :
    now.entryAt = table.entryAt := by
  funext slot
  simp only [entryAt, stays.index]
  cases full : table.index.slots.get? slot with
  | none => rfl
  | some handle =>
    obtain ⟨entry, _, read, _⟩ := legible full
    simp only [read, stays.keeps read]

theorem Legible.stays (legible : table.Legible) (stays : table.Stays now) : now.Legible := by
  intro slot handle full
  rw [stays.index] at full
  obtain ⟨entry, userKey, read, user⟩ := legible full
  exact ⟨entry, userKey, stays.keeps read, user⟩

theorem Legible.blocked_stays (legible : table.Legible) (stays : table.Stays now) :
    now.Blocked userKey ↔ table.Blocked userKey := by
  simp only [Blocked, legible.entryAt_stays stays, stays.index]

theorem Legible.makesRoom_stays (legible : table.Legible) (stays : table.Stays now) :
    now.MakesRoom userKey = table.MakesRoom userKey := by
  have choose : choices now = choices table := by
    funext slot
    simp only [choices, legible.entryAt_stays stays, stays.index]
  funext path
  simp only [MakesRoom, choose, stays.index]

/-- A published entry replaces another one of its user key or fills a slot of its own, unless its user
key is blocked; then the search for room decides. -/
theorem Legible.settle_cases (legible : table.Legible)
    (read : table.shelf.arena.get handle = .ok entry) (user : entryUserKey entry = .ok userKey)
    (chosen : table.index.candidates userKey = .ok among) :
    (¬ table.Blocked userKey ∧ ∃ slot,
      settle table handle = .ok (some (withSlots table (table.index.slots.put slot handle)))) ∨
    table.Blocked userKey ∧ ∃ room, findRoom table.index.isFull (choices table) among = .ok room ∧
      settle table handle = .ok (room.map (table.displacing handle)) := by
  have taken : table.Blocked userKey → ∀ slot ∈ among, ∃ entry other,
      table.entryAt slot = .ok (some entry) ∧ entryUserKey entry = .ok other ∧ other ≠ userKey := by
    rintro ⟨same, again, occupied⟩
    obtain rfl := Except.ok.inj (chosen.symm.trans again)
    exact occupied
  simp only [settle, read, user, bind, Except.bind]
  rcases legible.findUserKey_cases chosen with
    ⟨slot, existing, found, member, full, own⟩ | ⟨nothing, absent⟩
  · refine .inl ⟨fun blocked => ?_, slot, by simp only [found]; rfl⟩
    obtain ⟨_, other, again, cut, differs⟩ := taken blocked slot member
    obtain rfl := Option.some.inj (Except.ok.inj (full.symm.trans again))
    exact differs (Except.ok.inj (cut.symm.trans own))
  · simp only [nothing, chosen]
    cases free : among.find? (!table.index.isFull ·) with
    | some slot =>
      refine .inl ⟨fun blocked => ?_, slot, rfl⟩
      have empty := List.find?_some free
      rw [blocked.full chosen (List.mem_of_find?_eq_some free)] at empty
      cases empty
    | none =>
      have full : ∀ slot ∈ among, table.index.isFull slot = true := by
        simpa using List.find?_eq_none.mp free
      obtain ⟨room, searched⟩ := findRoom_ok table.index.isFull
        (legible.choices_ok (candidates_ok chosen)) among
      refine .inr ⟨⟨among, chosen, fun slot member => ?_⟩, room, searched, ?_⟩
      · obtain ⟨handle, filled⟩ := Option.isSome_iff_exists.mp (full slot member)
        obtain ⟨occupant, other, found, cut⟩ := legible filled
        have shown : table.entryAt slot = .ok (some occupant) := by
          simp only [entryAt, filled, found, Except.map]
        refine ⟨occupant, other, shown, cut, fun same => absent slot member occupant shown ?_⟩
        rw [cut, same]
      · simp only [searched]
        cases room <;> rfl

end Blocked

section Displacing

variable {table : CuckooTable} {handle : Handle} {entry userKey : Bytes} {among : List Nat}
  {path : KickPath} {empty : Nat}

/-- The chain that is found makes room, and none that makes room is shorter. -/
theorem Blocked.isLeast_length (blocked : table.Blocked userKey)
    (chosen : table.index.candidates userKey = .ok among)
    (found : findRoom table.index.isFull (choices table) among = .ok (some (path, empty))) :
    IsLeast (table.chainLengths userKey) path.length := by
  have full := fun slot (member : slot ∈ among) => blocked.full chosen member
  obtain ⟨chain, _, free⟩ := findRoom_chain full found
  refine ⟨⟨path.slot :: path.earlier, ⟨among, empty, chosen, chain, free⟩, rfl⟩, ?_⟩
  rintro _ ⟨other, ⟨same, target, again, chain, free⟩, rfl⟩
  obtain rfl := Except.ok.inj (chosen.symm.trans again)
  exact (findRoom_shortest full found).2 other target chain free

/-- The slots whose contents the moves along the chain that is found change are those of the chain and
no others, but for the empty one. -/
theorem Blocked.displaced_perm (blocked : table.Blocked userKey)
    (read : table.shelf.arena.get handle = .ok entry) (user : entryUserKey entry = .ok userKey)
    (chosen : table.index.candidates userKey = .ok among)
    (found : findRoom table.index.isFull (choices table) among = .ok (some (path, empty))) :
    (displaced table.index.slots (displace table.index.slots handle path empty)).Perm
      (path.slot :: path.earlier) := by
  have full := fun slot (member : slot ∈ among) => blocked.full chosen member
  obtain ⟨chain, distinct, free⟩ := findRoom_chain full found
  have shortest : Shortest (MayMove (choices table)) among (path.slot :: path.earlier) empty :=
    fun other chain => (findRoom_shortest full found).2 other empty chain free
  refine (List.perm_ext_iff_of_nodup ((Sparse.nodup_keys _).filter _)
    (List.nodup_cons.mp distinct).2).mpr fun slot => ?_
  simp only [List.mem_filter, Sparse.mem_keys, decide_eq_true_eq, get?_displace distinct]
  constructor
  · rintro ⟨filled, differs⟩
    by_contra aside
    have apart : slot ∉ empty :: path.slot :: path.earlier := by
      refine List.mem_cons.not.mpr (not_or.mpr ⟨?_, aside⟩)
      rintro rfl
      cases filled.symm.trans free
    simp [origin_of_notMem apart] at differs
  · intro onPath
    obtain ⟨next, moves⟩ := chain.leads onPath
    refine ⟨isFull_of_mayMove moves, fun same => ?_⟩
    split at same
    · next new =>
      -- The new handle cannot have been in a slot of the user key before.
      obtain ⟨_, again, occupied⟩ := blocked
      obtain rfl := Except.ok.inj (chosen.symm.trans again)
      obtain ⟨occupant, other, shown, cut, differs⟩ := occupied slot (chain.mem_starts new)
      simp only [entryAt, ← same, read, Except.map, Except.ok.injEq, Option.some.injEq] at shown
      subst shown
      exact differs (Except.ok.inj (cut.symm.trans user))
    · next source moved =>
      obtain ⟨next, moves, blockedThere⟩ := chain.moves_further shortest distinct onPath moved
      have choose : choices table source = choices table slot := by
        simp only [choices, entryAt, same]
      exact blockedThere (by rwa [MayMove, choose])

/-- Where no room is found, every chain that makes room is too long. -/
theorem Blocked.stuck (blocked : table.Blocked userKey)
    (chosen : table.index.candidates userKey = .ok among)
    (nothing : findRoom table.index.isFull (choices table) among = .ok none) {chain : List Nat}
    (makes : table.MakesRoom userKey chain) : maxDisplacements < chain.length := by
  obtain ⟨same, empty, again, chain, free⟩ := makes
  obtain rfl := Except.ok.inj (chosen.symm.trans again)
  exact findRoom_none (fun slot member => blocked.full chosen member) nothing chain free

end Displacing

/-- What a table makes of an entry that it takes in, given the shelf and the index afterwards: the entry
gets a slot that is free for it, displaces as few occupants as it can but no more than are allowed, or
goes to the backup. -/
inductive Takes (table : CuckooTable) (userKey entry : Bytes) (shelf : Shelf) (index : CuckooIndex) :
    Prop
  | free (unblocked : ¬ table.Blocked userKey)
    (longest : index.longestChain = table.index.longestChain)
    (backup : index.backup = table.index.backup)
  | displacing {length : Nat} (blocked : table.Blocked userKey)
    (least : IsLeast (table.chainLengths userKey) length) (short : length ≤ maxDisplacements)
    (longest : index.longestChain = max table.index.longestChain length)
    (backup : index.backup = table.index.backup)
  | spilling {backup : SkipIndex} (blocked : table.Blocked userKey)
    (stuck : ∀ path, table.MakesRoom userKey path → maxDisplacements < path.length)
    (longest : index.longestChain = table.index.longestChain)
    (present : index.backup = some backup) (holds : backup.Holds shelf [entry])

section House

variable {table now : CuckooTable} {handle : Handle} {entry userKey : Bytes} {draft : Draft}

/-- What becomes of a published entry that is housed. -/
theorem Legible.house_cases (legible : table.Legible)
    (read : table.shelf.arena.get handle = .ok entry) (user : entryUserKey entry = .ok userKey)
    {among : List Nat} (chosen : table.index.candidates userKey = .ok among)
    (done : house table handle = .ok now) : table.Takes userKey entry now.shelf now.index := by
  obtain ⟨settled, found, done⟩ := bind_eq_ok.mp done
  rcases legible.settle_cases read user chosen with
    ⟨unblocked, slot, put⟩ | ⟨blocked, room, searched, moved⟩
  · obtain rfl := Except.ok.inj (found.symm.trans put)
    obtain rfl := Except.ok.inj done
    exact .free unblocked rfl rfl
  · obtain rfl := Except.ok.inj (found.symm.trans moved)
    cases room with
    | none =>
      obtain ⟨backup, log, spilled, holds⟩ := spill_ok table read
      obtain rfl := Except.ok.inj (spilled.symm.trans done)
      exact .spilling blocked (fun _ makes => blocked.stuck chosen searched makes) rfl rfl holds
    | some room =>
      obtain ⟨path, empty⟩ := room
      obtain rfl := Except.ok.inj done
      have short := (findRoom_shortest (fun _ member => blocked.full chosen member) searched).1
      exact .displacing blocked (blocked.isLeast_length chosen searched) short rfl rfl

/-- What becomes of a published entry whose user key is blocked. Occupants move exactly if a chain of
an allowed length makes room, and no more of them than needed; else all slots stay as they are. -/
theorem Legible.settle_blocked (legible : table.Legible)
    (read : table.shelf.arena.get handle = .ok entry) (user : entryUserKey entry = .ok userKey)
    (blocked : table.Blocked userKey) :
    ∃ settled, settle table handle = .ok settled ∧
      (settled.isSome ↔ ∃ path, table.MakesRoom userKey path ∧
        (∀ slot ∈ path, table.index.isFull slot = true) ∧ 1 ≤ path.length ∧
        path.length ≤ maxDisplacements) ∧
      (∀ now, settled = some now → ∃ length, IsLeast (table.chainLengths userKey) length ∧
        (displaced table.index.slots now.index.slots).length = length ∧
        now.index.longestChain = max table.index.longestChain length) ∧
      (settled = none → ∃ backup log, house table handle = .ok { table with
        gate := table.gate.close, log, index := { table.index with backup := some backup } }) := by
  have ⟨among, chosen, _⟩ := blocked
  rcases legible.settle_cases read user chosen with ⟨unblocked, _⟩ | ⟨_, room, searched, moved⟩
  · exact absurd blocked unblocked
  · refine ⟨_, moved, ?_⟩
    cases room with
    | none =>
      refine ⟨⟨nofun, ?_⟩, nofun, fun _ => ?_⟩
      · rintro ⟨path, makes, _, _, short⟩
        exact absurd short (Nat.not_le.mpr (blocked.stuck chosen searched makes))
      · obtain ⟨backup, log, spilled, _⟩ := spill_ok table read
        exact ⟨backup, log, bind_eq_ok.mpr ⟨none, moved, spilled⟩⟩
    | some room =>
      obtain ⟨path, empty⟩ := room
      have least := blocked.isLeast_length chosen searched
      have short := (findRoom_shortest (fun _ member => blocked.full chosen member) searched).1
      refine ⟨⟨fun _ => ?_, fun _ => rfl⟩, ?_, nofun⟩
      · obtain ⟨chain, makes, length⟩ := least.1
        exact ⟨chain, makes, fun _ => makes.occupied, blocked.length_pos makes, length ▸ short⟩
      · rintro _ ⟨⟩
        exact ⟨path.length, least, (blocked.displaced_perm read user chosen searched).length_eq, rfl⟩

/-- What becomes of an entry does not depend on what was published just before. -/
theorem Takes.of_stays {stored : CuckooTable} (legible : table.Legible) (stays : table.Stays stored)
    (takes : stored.Takes userKey entry now.shelf now.index) :
    table.Takes userKey entry now.shelf now.index := by
  have blocks : stored.Blocked userKey ↔ table.Blocked userKey := legible.blocked_stays stays
  have makes : stored.MakesRoom userKey = table.MakesRoom userKey := legible.makesRoom_stays stays
  cases takes with
  | free unblocked longest backup =>
    exact .free (mt blocks.mpr unblocked) (stays.index ▸ longest) (stays.index ▸ backup)
  | displacing blocked least short longest backup =>
    have same : stored.chainLengths userKey = table.chainLengths userKey := by
      simp only [chainLengths, makes]
    exact .displacing (blocks.mp blocked) (same ▸ least) short (stays.index ▸ longest)
      (stays.index ▸ backup)
  | spilling blocked stuck longest present holds =>
    exact .spilling (blocks.mp blocked) (makes ▸ stuck) (stays.index ▸ longest) present holds

/-- An insert fails and leaves the table as it was, or takes in its entry. -/
theorem insert_takes (vacant : table.gate.occupied = false) (legible : table.Legible) :
    (∃ failure, insert draft table = (table, .error failure)) ∨
    ∃ now userKey, insert draft table = (now, .ok ()) ∧ entryUserKey draft.bytes = .ok userKey ∧
      table.Takes userKey draft.bytes now.shelf now.index ∧ now.gate.occupied = false ∧
      now.Legible := by
  rcases @insert_houses draft table vacant legible with
    ⟨failure, failed, _⟩ |
      ⟨stored, now, userKey, among, stays, read, user, chosen, done, left, inserted⟩
  · exact .inl ⟨failure, failed⟩
  · have takes := Legible.house_cases (legible.stays stays) read user (stays.index ▸ chosen) done
    exact .inr ⟨_, userKey, inserted, user, takes.of_stays legible stays, rfl, left⟩

end House

end CuckooTable

namespace MemTable

/-- An insert into a cuckoo table that succeeds although all slots of its user key are taken. -/
def TakesBlocked (draft : Draft) (userKey : Bytes) (table : CuckooTable) : Prop :=
  (CuckooTable.insert draft table).2 = .ok () ∧ entryUserKey draft.bytes = .ok userKey ∧
    table.Blocked userKey

/-- An insert that displaces the least number of occupants that makes room for its user key. -/
def Displaces (length : Nat) (draft : Draft) : MemTable → Prop
  | cuckoo table => ∃ userKey, TakesBlocked draft userKey table ∧
      IsLeast (table.chainLengths userKey) length ∧ length ≤ maxDisplacements
  | skipList _ | vector _ | hashedSkipLists _ | hashedChains _ => False

/-- An insert of an entry whose user key more displacements would be needed for than are allowed. -/
def Exceeds (entry : Bytes) (draft : Draft) : MemTable → Prop
  | cuckoo table => draft.bytes = entry ∧ ∃ userKey, TakesBlocked draft userKey table ∧
      ∀ path, table.MakesRoom userKey path → maxDisplacements < path.length
  | skipList _ | vector _ | hashedSkipLists _ | hashedChains _ => False

/-- Some insert of a run finds a table as described. -/
def SomeInsert (described : Draft → MemTable → Prop) (table : MemTable)
    (operations : List Operation) : Prop :=
  ∃ earlier draft later, operations = earlier ++ .insert draft :: later ∧
    described draft (table.run earlier)

section Runs

variable {described : Draft → MemTable → Prop} {table : CuckooTable}

theorem someInsert_append (table : MemTable) (operations : List Operation) (operation : Operation) :
    SomeInsert described table (operations ++ [operation]) ↔ SomeInsert described table operations ∨
      ∃ draft, operation = .insert draft ∧ described draft (table.run operations) := by
  constructor
  · rintro ⟨earlier, draft, later, parts, found⟩
    rcases List.eq_nil_or_concat later with rfl | ⟨others, last, rfl⟩
    · obtain ⟨rfl, same⟩ := List.append_inj' parts rfl
      exact .inr ⟨draft, List.singleton_injective same, found⟩
    · rw [List.concat_eq_append, ← List.cons_append, ← List.append_assoc] at parts
      obtain ⟨rfl, _⟩ := List.append_inj' parts rfl
      exact .inl ⟨earlier, draft, others, rfl, found⟩
  · rintro (⟨earlier, draft, later, rfl, found⟩ | ⟨draft, rfl, found⟩)
    · exact ⟨earlier, draft, later ++ [operation], by simp, found⟩
    · exact ⟨operations, draft, [], rfl, found⟩

/-- An operation on a cuckoo table takes in the entry of an insert that succeeds, or leaves the index
as it is. -/
theorem cuckoo_step (vacant : table.gate.occupied = false) (legible : table.Legible)
    (operation : Operation) :
    ∃ now, (cuckoo table).perform operation = cuckoo now ∧ now.gate.occupied = false ∧
      now.Legible ∧ ((now.index = table.index ∧
          ∀ draft, operation = .insert draft → (CuckooTable.insert draft table).2 ≠ .ok ()) ∨
        ∃ draft userKey, operation = .insert draft ∧ (CuckooTable.insert draft table).2 = .ok () ∧
          entryUserKey draft.bytes = .ok userKey ∧
          table.Takes userKey draft.bytes now.shelf now.index) := by
  cases operation with
  | insert draft =>
    rcases @CuckooTable.insert_takes table draft vacant legible with
      ⟨failure, failed⟩ | ⟨now, userKey, done, user, takes, left, kept⟩
    · refine ⟨table, by rw [perform, MemTable.insert, failed]; rfl, vacant, legible, .inl ⟨rfl, ?_⟩⟩
      rintro _ ⟨⟩
      simp [failed]
    · refine ⟨now, by rw [perform, MemTable.insert, done]; rfl, left, kept, .inr ?_⟩
      exact ⟨draft, userKey, rfl, by rw [done], user, takes⟩
  | get key goesOn =>
    have same : ((cuckoo table).get key goesOn).1 = cuckoo table := by
      simp only [MemTable.get]
      cases key.userKey <;> rfl
    exact ⟨table, same, vacant, legible, .inl ⟨rfl, by simp⟩⟩
  | contains internalKey | openCursor range =>
    exact ⟨table, rfl, vacant, legible, .inl ⟨rfl, by simp⟩⟩
  | allocate size | close => exact ⟨_, rfl, vacant, legible, .inl ⟨rfl, by simp⟩⟩

/-- An insert displaces nothing, or exactly as many occupants as the table then counts. -/
theorem longest_cases_of_takes {now : CuckooTable} {draft : Draft} {userKey : Bytes}
    (takes : table.Takes userKey draft.bytes now.shelf now.index)
    (done : (CuckooTable.insert draft table).2 = .ok ())
    (user : entryUserKey draft.bytes = .ok userKey) :
    (now.index.longestChain = table.index.longestChain ∧
      ∀ length, ¬ Displaces length draft (cuckoo table)) ∨
    ∃ length, now.index.longestChain = max table.index.longestChain length ∧
      ∀ other, Displaces other draft (cuckoo table) ↔ other = length := by
  cases takes with
  | free unblocked same _ =>
    refine .inl ⟨same, ?_⟩
    rintro length ⟨other, ⟨_, cut, blocked⟩, _⟩
    obtain rfl := Except.ok.inj (user.symm.trans cut)
    exact unblocked blocked
  | spilling blocked stuck same _ _ =>
    refine .inl ⟨same, ?_⟩
    rintro length ⟨other, ⟨_, cut, _⟩, ⟨⟨path, makes, rfl⟩, _⟩, short⟩
    obtain rfl := Except.ok.inj (user.symm.trans cut)
    exact absurd short (Nat.not_le.mpr (stuck path makes))
  | @displacing length blocked least short grown _ =>
    refine .inr ⟨length, grown, fun other => ⟨?_, ?_⟩⟩
    · rintro ⟨key, ⟨_, cut, _⟩, leastToo, _⟩
      obtain rfl := Except.ok.inj (user.symm.trans cut)
      exact leastToo.unique least
    · rintro rfl
      exact ⟨userKey, ⟨done, user, blocked⟩, least, short⟩

/-- An insert leaves the backup as it is, or makes one of its entry because every chain is too long. -/
theorem backup_cases_of_takes {now : CuckooTable} {draft : Draft} {userKey : Bytes}
    (takes : table.Takes userKey draft.bytes now.shelf now.index)
    (done : (CuckooTable.insert draft table).2 = .ok ())
    (user : entryUserKey draft.bytes = .ok userKey) :
    now.index.backup = table.index.backup ∨ ∃ backup, now.index.backup = some backup ∧
      backup.Holds now.shelf [draft.bytes] ∧ Exceeds draft.bytes draft (cuckoo table) := by
  cases takes with
  | free _ _ same | displacing _ _ _ _ same => exact .inl same
  | spilling blocked stuck _ present holds =>
    exact .inr ⟨_, present, holds, rfl, userKey, ⟨done, user, blocked⟩, stuck⟩

/-- What is known of a cuckoo table after a run: the longest chain that it counts, and what its backup
is for. -/
structure Recorded (start : CuckooTable) (operations : List Operation) (now : CuckooTable) : Prop where
  ran : (cuckoo start).run operations = cuckoo now
  vacant : now.gate.occupied = false
  legible : now.Legible
  longest : IsGreatest
    ({0} ∪ {length | SomeInsert (Displaces length) (cuckoo start) operations}) now.index.longestChain
  backup : ∀ backup, now.index.backup = some backup → ∃ entry, backup.Holds now.shelf [entry] ∧
    SomeInsert (Exceeds entry) (cuckoo start) operations

/-- What is known of a cuckoo table is known after one more operation. -/
theorem Recorded.step {start now : CuckooTable} {operations : List Operation}
    (recorded : Recorded start operations now) (operation : Operation) :
    ∃ next, Recorded start (operations ++ [operation]) next := by
  obtain ⟨ran, vacant, legible, longest, backup⟩ := recorded
  obtain ⟨next, performed, left, kept, change⟩ := cuckoo_step vacant legible operation
  have shelf : now.shelf.Extends next.shelf := by
    have extended := perform_extends (cuckoo now) operation
    rwa [performed] at extended
  have oldBackup : next.index.backup = now.index.backup → ∀ backup, next.index.backup = some backup →
      ∃ entry, backup.Holds next.shelf [entry] ∧
        SomeInsert (Exceeds entry) (cuckoo start) (operations ++ [operation]) := by
    intro same other present
    obtain ⟨entry, holds, exceeds⟩ := backup other (same ▸ present)
    exact ⟨entry, holds.keeps shelf.order fun found => shelf.keeps found,
      (someInsert_append ..).mpr (.inl exceeds)⟩
  refine ⟨next, by rw [run_append, ran]; exact performed, left, kept, ?_, ?_⟩
  · simp only [someInsert_append, ran]
    rcases change with ⟨index, fails⟩ | ⟨draft, userKey, rfl, done, user, takes⟩
    · have none : ∀ length, ¬ ∃ draft, operation = .insert draft ∧
          Displaces length draft (cuckoo now) := by
        rintro length ⟨draft, inserts, _, ⟨done, _⟩, _⟩
        exact fails draft inserts done
      simpa only [none, or_false, index] using longest
    · simp only [Operation.insert.injEq, exists_eq_left']
      rcases longest_cases_of_takes takes done user with ⟨same, none⟩ | ⟨length, grown, exactly⟩
      · simpa only [none, or_false, same] using longest
      · simp only [exactly, grown, Set.ofPred_or, ← Set.union_assoc, Set.ofPred_eq_eq_singleton]
        exact longest.union isGreatest_singleton
  · rcases change with ⟨index, _⟩ | ⟨draft, userKey, rfl, done, user, takes⟩
    · exact oldBackup (congrArg _ index)
    · rcases backup_cases_of_takes takes done user with same | ⟨backup, present, holds, exceeds⟩
      · exact oldBackup same
      · intro other same
        obtain rfl := Option.some.inj (present.symm.trans same)
        exact ⟨draft.bytes, holds, (someInsert_append ..).mpr (.inr ⟨draft, rfl, ran ▸ exceeds⟩)⟩

/-- What is known after any run of a cuckoo table that was just made. -/
theorem recorded_run {shelf : Shelf} {hash : UInt64 → Bytes → UInt64} {heights : Heights}
    {count hashCount : Nat}
    (made : CuckooTable.create shelf hash heights count hashCount = .ok table)
    (operations : List Operation) : ∃ now, Recorded table operations now := by
  induction operations using List.reverseRecOn with
  | append_singleton operations operation ih =>
    obtain ⟨now, recorded⟩ := ih
    exact recorded.step operation
  | nil =>
    obtain ⟨vacant, legible⟩ := (Made.cuckoo made).sound
    have none : ∀ length, ¬ SomeInsert (Displaces length) (cuckoo table) [] := by
      rintro length ⟨earlier, draft, later, parts, _⟩
      simp at parts
    obtain rfl := CuckooTable.create_ok made
    refine ⟨_, rfl, vacant, legible, ?_, nofun⟩
    simpa only [none, Set.ofPred_false, Set.union_empty] using isGreatest_singleton

/-- Displacements are complete, bounded and shortest. In every cuckoo table whose occupants can be
read, an entry whose user key is blocked displaces occupants exactly if some chain of one to ten of
them makes room, and then as few as possible; else it displaces none. So after any run the longest
chain that the table counts is the greatest of these least lengths, and an entry is in the backup only
if every chain was too long for it. -/
theorem displaces_shortest_chain :
    (∀ {table : CuckooTable} {handle : Handle} {entry userKey : Bytes}, table.Legible →
      table.shelf.arena.get handle = .ok entry → entryUserKey entry = .ok userKey →
      table.Blocked userKey →
        ∃ settled, table.settle handle = .ok settled ∧
          (settled.isSome ↔ ∃ path, table.MakesRoom userKey path ∧
            (∀ slot ∈ path, table.index.isFull slot = true) ∧ 1 ≤ path.length ∧
            path.length ≤ maxDisplacements) ∧
          (∀ now, settled = some now → ∃ length, IsLeast (table.chainLengths userKey) length ∧
            (displaced table.index.slots now.index.slots).length = length ∧
            now.index.longestChain = max table.index.longestChain length) ∧
          (settled = none → ∃ backup log, table.house handle = .ok { table with
            gate := table.gate.close, log, index := { table.index with backup := some backup } })) ∧
    ∀ {shelf : Shelf} {hash : UInt64 → Bytes → UInt64} {heights : Heights} {count hashCount : Nat}
      {table : CuckooTable}, CuckooTable.create shelf hash heights count hashCount = .ok table →
      ∀ operations, ∃ now, (cuckoo table).run operations = cuckoo now ∧
        IsGreatest ({0} ∪ {length | SomeInsert (Displaces length) (cuckoo table) operations})
          now.index.longestChain ∧
        now.index.longestChain ≤ maxDisplacements ∧
        ∀ entry, now.Stores entry .backup → SomeInsert (Exceeds entry) (cuckoo table) operations := by
  refine ⟨CuckooTable.Legible.settle_blocked, fun made operations => ?_⟩
  obtain ⟨now, ran, _, _, longest, backup⟩ := recorded_run made operations
  refine ⟨now, ran, longest, ?_, ?_⟩
  · rcases longest.1 with none | ⟨earlier, draft, later, _, displaces⟩
    · exact none ▸ Nat.zero_le _
    · cases before : (cuckoo _).run earlier with
      | cuckoo table =>
        rw [before] at displaces
        obtain ⟨_, _, _, short⟩ := displaces
        exact short
      | skipList table | vector table | hashedSkipLists table | hashedChains table =>
        rw [before] at displaces
        exact displaces.elim
  · rintro entry ⟨entries, read, member⟩
    simp only [CuckooTable.backupEntries] at read
    split at read
    · obtain rfl := Except.ok.inj read
      cases member
    · next other present =>
      obtain ⟨spilled, holds, exceeds⟩ := backup other present
      obtain ⟨found, again, perm⟩ := holds.entries_eq
      obtain rfl := Except.ok.inj (again.symm.trans read)
      obtain rfl := List.mem_singleton.mp (perm.mem_iff.mp member)
      exact exceeds

/-- Two occupants move for an entry whose only slot is taken, and the table counts them. -/
theorem displaces_chain_of_two :
    let a : Bytes := [9, 0, 0, 0, 97, 1, 1, 0, 0, 0, 0, 0, 0, 0, 0, 0, 0]
    let b : Bytes := [9, 0, 0, 0, 98, 1, 2, 0, 0, 0, 0, 0, 0, 0, 0, 0, 0]
    let c : Bytes := [9, 0, 0, 0, 99, 1, 3, 0, 0, 0, 0, 0, 0, 0, 0, 0, 0]
    let hash : UInt64 → Bytes → UInt64 := fun seed userKey =>
      if userKey = [97] then seed else if userKey = [98] then seed + 1 else 0
    let arena : Arena := [⟨0, ⟨0⟩, a⟩, ⟨0, ⟨1⟩, b⟩, ⟨0, ⟨2⟩, c⟩].foldl
      (fun arena draft => (arena.publish draft).toOption.getD arena) { id := 0 }
    let slots : Sparse Handle := ((Sparse.empty 3).put 0 ⟨0⟩).put 1 ⟨1⟩
    let index : CuckooIndex := { hash, hashCount := 2, slots, heights := fun _ => 1 }
    let table : CuckooTable := { shelf := { order := .versioned, arena }, index }
    let fresh : CuckooTable := {
      shelf := { order := .versioned, arena := { id := 0 } }
      log := [.creatingCuckooTable 3 2]
      index := { hash, hashCount := 2, slots := .empty 3, heights := fun _ => 1 } }
    let operations : List Operation :=
      [.insert ⟨0, ⟨0⟩, a⟩, .insert ⟨0, ⟨1⟩, b⟩, .insert ⟨0, ⟨2⟩, c⟩]
    (∃ now, table.settle ⟨2⟩ = .ok (some now) ∧
      (displaced table.index.slots now.index.slots).length = 2 ∧
      IsLeast (table.chainLengths [99]) 2) ∧
    ∃ now, (cuckoo fresh).run operations = cuckoo now ∧ now.index.longestChain = 2 ∧
      SomeInsert (Displaces 2) (cuckoo fresh) operations := by
  intro a b c hash arena slots index table fresh operations
  constructor
  · have legible : table.Legible := by
      intro slot handle full
      simp only [table, index, slots, Sparse.get?_put, Sparse.get?_empty] at full
      split at full
      · obtain rfl := Option.some.inj full
        exact ⟨b, [98], by decide +kernel, by decide +kernel⟩
      · split at full
        · obtain rfl := Option.some.inj full
          exact ⟨a, [97], by decide +kernel, by decide +kernel⟩
        · cases full
    have blocked : table.Blocked [99] := by
      refine ⟨[0, 0], by decide +kernel, fun slot member => ?_⟩
      obtain rfl : slot = 0 := by simpa using member
      exact ⟨a, [97], by decide +kernel, by decide +kernel, by decide⟩
    obtain ⟨settled, done, _, moved, _⟩ := displaces_shortest_chain.1 legible
      (show table.shelf.arena.get ⟨2⟩ = .ok c by decide +kernel) (by decide +kernel) blocked
    have counted : (table.settle ⟨2⟩).toOption.map (Option.map fun now =>
        (displaced table.index.slots now.index.slots).length) = some (some 2) := by
      decide +kernel
    rw [done] at counted
    cases settled with
    | none => cases counted
    | some now =>
      have two := Option.some.inj (Option.some.inj counted)
      obtain ⟨length, least, same, _⟩ := moved now rfl
      exact ⟨now, done, two, same.symm.trans two ▸ least⟩
  · have made : CuckooTable.create fresh.shelf hash fresh.index.heights 3 2 = .ok fresh := rfl
    obtain ⟨now, ran, longest, _⟩ := displaces_shortest_chain.2 made operations
    have counted : now.index.longestChain = 2 := by
      obtain rfl := cuckoo.inj ran
      decide +kernel
    refine ⟨now, ran, counted, ?_⟩
    simpa [counted] using longest.1

end Runs

end MemTable

end WriteBuffer
