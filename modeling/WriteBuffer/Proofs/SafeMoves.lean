import Mathlib
import WriteBuffer.Proofs.Displacing

/-!
The moves of a displacement, store by store. After any number of them each user key is still in a slot
that it may have, and no store empties a slot (`CuckooTable.displacement_keeps_keys`). The reason is
that the slots of the chain are distinct and that each content is stored in its new slot before the old
one is overwritten: a part of the stores is a shift along the first part of the chain, at the end of
which one content is doubled (`get?_applyStores_take`). All this is said of tidy tables, and every table
that keeps latest versions is one (`CuckooTable.Holds.tidy`).
-/
namespace WriteBuffer

section Stores

variable {slots : Sparse Handle} {handle : Handle} {path : List Nat} {target slot source : Nat}

theorem applyStores_append (slots : Sparse Handle) (first second : List (Nat × Option Handle)) :
    applyStores slots (first ++ second) = applyStores (applyStores slots first) second :=
  List.foldl_append ..

theorem length_displacementStores (slots : Sparse Handle) (handle : Handle) (path : List Nat)
    (target : Nat) : (displacementStores slots handle path target).length = path.length + 1 := by
  induction path generalizing target with
  | nil => rfl
  | cons source earlier ih => rw [displacementStores, List.length_cons, ih, List.length_cons]

/-- After some of the stores along a chain, what was in a slot before is where the first part of the
chain takes it. -/
theorem get?_applyStores_part (distinct : (target :: path).Nodup) (count : Nat)
    (moved : origin (path.take count) target slot = some source) :
    (applyStores slots ((displacementStores slots handle path target).take count)).get? slot
      = slots.get? source := by
  by_cases within : count ≤ path.length
  · simp only [get?_applyStores_take distinct within, moved, ite_eq_right_iff]
    exact fun same => congrArg _ same.symm
  · rw [List.take_of_length_le (Nat.le_of_not_le within)] at moved
    rw [List.take_of_length_le (by rw [length_displacementStores]; omega)]
    simp only [get?_applyStores distinct, moved, ite_eq_right_iff]
    exact fun same => congrArg _ same.symm

/-- A store along a chain puts into its slot what the next slot of the chain holds at that time. -/
theorem getElem?_displacementStores (distinct : (target :: path).Nodup) {count : Nat}
    (next : path[count]? = some source) :
    ((displacementStores slots handle path target)[count]?).map (·.2)
      = some ((applyStores slots
          ((displacementStores slots handle path target).take count)).get? source) := by
  have content : ∀ {path : List Nat} {target count : Nat}, path[count]? = some source →
      ((displacementStores slots handle path target)[count]?).map (·.2)
        = some (slots.get? source) := by
    intro path target count next
    induction path generalizing target count with
    | nil => simp at next
    | cons first earlier ih =>
      cases count with
      | zero =>
        obtain rfl := Option.some.inj next
        rfl
      | succ count => exact ih next
  obtain ⟨within, same⟩ := List.getElem?_eq_some_iff.mp next
  -- The slot is not among those that were stored to before.
  have later : source ∈ (target :: path).drop (count + 1) := by
    rw [List.drop_succ_cons, List.drop_eq_getElem_cons within, same]
    exact List.mem_cons_self
  have apart : source ∉ target :: path.take count := fun earlier =>
    List.disjoint_take_drop distinct le_rfl earlier later
  rw [content next, get?_applyStores_part distinct count (origin_of_notMem apart)]

theorem isSome_of_mem_displacementStores (full : ∀ slot ∈ path, (slots.get? slot).isSome)
    {store : Nat × Option Handle} (member : store ∈ displacementStores slots handle path target) :
    store.2.isSome := by
  induction path generalizing target with
  | nil =>
    obtain rfl := List.mem_singleton.mp member
    rfl
  | cons source earlier ih =>
    obtain ⟨filled, full⟩ := List.forall_mem_cons.mp full
    rcases List.mem_cons.mp member with rfl | later
    · exact filled
    · exact ih full later

/-- No store along a chain of full slots empties a slot. -/
theorem isSome_applyStores_succ (full : ∀ slot ∈ path, (slots.get? slot).isSome) (count : Nat)
    (filled : ((applyStores slots
      ((displacementStores slots handle path target).take count)).get? slot).isSome) :
    ((applyStores slots
      ((displacementStores slots handle path target).take (count + 1))).get? slot).isSome := by
  rw [List.take_add_one, applyStores_append]
  cases last : (displacementStores slots handle path target)[count]? with
  | none => exact filled
  | some store =>
    obtain ⟨index, content⟩ := store
    have some := isSome_of_mem_displacementStores full (List.mem_of_getElem? last)
    simp only [Option.toList_some, applyStores, List.foldl_cons, List.foldl_nil, Sparse.get?_store]
    split
    · exact some
    · exact filled

theorem Chain.take {moves : Nat → Nat → Prop} {starts : List Nat}
    (chain : Chain moves starts path target) (count : Nat) :
    ∃ starts, Chain moves starts (path.take count) target := by
  induction count generalizing path target with
  | zero => exact ⟨[target], List.mem_singleton_self _⟩
  | succ count ih =>
    cases path with
    | nil => exact ⟨starts, chain⟩
    | cons source earlier => exact (ih chain.2).imp fun _ rest => ⟨chain.1, rest⟩

/-- The shift along a chain into an empty slot fills this slot and no other. -/
theorem isSome_displaced (distinct : (target :: path).Nodup)
    (full : ∀ slot ∈ path, (slots.get? slot).isSome) (slot : Nat) :
    ((applyStores slots (displacementStores slots handle path target)).get? slot).isSome ↔
      slot = target ∨ (slots.get? slot).isSome := by
  rw [get?_applyStores distinct]
  by_cases onPath : slot ∈ target :: path
  · have before : slot = target ∨ (slots.get? slot).isSome :=
      (List.mem_cons.mp onPath).imp_right (full slot)
    refine iff_of_true ?_ before
    split
    · rfl
    · next source moved =>
      have filled : ∀ other ∈ target :: path, other ≠ target → (slots.get? other).isSome :=
        fun other member differs => full other ((List.mem_cons.mp member).resolve_left differs)
      have fromPath : source ∈ target :: path :=
        (origin_mem moved).elim (fun same => same ▸ onPath) (List.mem_cons_of_mem _)
      have moves := filled source fromPath fun same => origin_ne_target distinct (same ▸ moved)
      split
      · next same => exact same ▸ moves
      · exact moves
  · have apart : slot ≠ target := fun same => onPath (same ▸ List.mem_cons_self)
    simp [origin_of_notMem onPath, apart]

end Stores

namespace CuckooTable

/-- A slot is occupied by an entry of a user key. -/
def HoldsAt (table : CuckooTable) (userKey : Bytes) (slot : Nat) : Prop :=
  ∃ entry, table.entryAt slot = .ok (some entry) ∧ entryUserKey entry = .ok userKey

/-- A slot is one of those that a user key may have. -/
def Candidate (table : CuckooTable) (userKey : Bytes) (slot : Nat) : Prop :=
  ∃ among, table.index.candidates userKey = .ok among ∧ slot ∈ among

/-- Each occupant has a user key and a slot that this may have, and no user key has two slots. -/
structure Tidy (table : CuckooTable) : Prop where
  home : ∀ {slot handle}, table.index.slots.get? slot = some handle → ∃ entry userKey,
    table.shelf.arena.get handle = .ok entry ∧ entryUserKey entry = .ok userKey ∧
      table.Candidate userKey slot
  once : ∀ {userKey slot other}, table.HoldsAt userKey slot → table.HoldsAt userKey other →
    slot = other

section Moves

variable {table : CuckooTable} {handle : Handle} {entry userKey key : Bytes} {slot : Nat}
  {among : List Nat} {path : List Nat} {empty : Nat}

theorem Tidy.legible (tidy : table.Tidy) : table.Legible := by
  intro slot handle full
  obtain ⟨entry, userKey, read, user, _⟩ := tidy.home full
  exact ⟨entry, userKey, read, user⟩

theorem Tidy.candidate (tidy : table.Tidy) (holds : table.HoldsAt key slot) :
    table.Candidate key slot := by
  obtain ⟨entry, shown, user⟩ := holds
  simp only [entryAt] at shown
  split at shown
  · cases shown
  · next handle full =>
    obtain ⟨other, userKey, read, cut, own⟩ := tidy.home full
    rw [read] at shown
    obtain rfl := Option.some.inj (Except.ok.inj shown)
    obtain rfl := Except.ok.inj (user.symm.trans cut)
    exact own

theorem Tidy.absent (tidy : table.Tidy) (blocked : table.Blocked userKey) (slot : Nat) :
    ¬ table.HoldsAt userKey slot := by
  intro holds
  obtain ⟨among, chosen, member⟩ := tidy.candidate holds
  obtain ⟨same, again, occupied⟩ := blocked
  obtain rfl := Except.ok.inj (chosen.symm.trans again)
  obtain ⟨entry, shown, user⟩ := holds
  obtain ⟨other, key, found, cut, differs⟩ := occupied slot member
  obtain rfl := Option.some.inj (Except.ok.inj (shown.symm.trans found))
  exact differs (Except.ok.inj (cut.symm.trans user))

theorem HoldsAt.candidate_of_mayMove {target : Nat} (holds : table.HoldsAt key slot)
    (moves : MayMove (choices table) slot target) : table.Candidate key target := by
  obtain ⟨entry, shown, user⟩ := holds
  obtain ⟨among, chosen, member⟩ := moves
  simp only [choices, shown, user, bind, Except.bind] at chosen
  exact ⟨among, chosen, member⟩

theorem holdsAt_withSlots {stored : Sparse Handle} {home : Nat}
    (same : stored.get? home = table.index.slots.get? slot) :
    (withSlots table stored).HoldsAt key home ↔ table.HoldsAt key slot := by
  simp only [HoldsAt, entryAt, withSlots, same]

theorem HoldsAt.isFull (holds : table.HoldsAt key slot) : table.index.isFull slot = true := by
  obtain ⟨entry, shown, _⟩ := holds
  exact isFull_of_entryAt shown

/-- What a shift along a chain of moves into an empty slot takes from a slot is in another one that it
may have. -/
theorem Tidy.shifted (tidy : table.Tidy) {starts : List Nat}
    (chain : Chain (MayMove (choices table)) starts path empty) (distinct : (empty :: path).Nodup)
    (free : table.index.isFull empty = false) (holds : table.HoldsAt key slot) :
    ∃ home, origin path empty home = some slot ∧ table.Candidate key home := by
  have differs : slot ≠ empty := by
    rintro rfl
    cases free.symm.trans holds.isFull
  obtain ⟨home, moved⟩ := (origin_surjective distinct).2 slot differs
  refine ⟨home, moved, ?_⟩
  rcases chain.moved moved with rfl | moves
  · exact tidy.candidate holds
  · exact holds.candidate_of_mayMove moves

/-- What holds a user key after the shift: the slot of the new handle, or one whose content it had. -/
theorem holdsAt_displace_iff {room : KickPath}
    (distinct : (empty :: room.slot :: room.earlier).Nodup)
    (read : table.shelf.arena.get handle = .ok entry) (user : entryUserKey entry = .ok userKey)
    (home : Nat) :
    (table.displacing handle (room, empty)).HoldsAt key home ↔
      (origin (room.slot :: room.earlier) empty home = none ∧ key = userKey) ∨
        ∃ slot, origin (room.slot :: room.earlier) empty home = some slot ∧ table.HoldsAt key slot := by
  have content := @get?_displace table.index.slots handle room empty distinct home
  cases moved : origin (room.slot :: room.earlier) empty home with
  | some slot =>
    rw [moved] at content
    have same : (table.displacing handle (room, empty)).HoldsAt key home ↔ table.HoldsAt key slot :=
      holdsAt_withSlots content
    simpa using same
  | none =>
    rw [moved] at content
    simp [HoldsAt, entryAt, displacing, content, read, Except.map, user, eq_comm]

theorem candidates_applyStores (index : CuckooIndex) (stores : List (Nat × Option Handle))
    (longestChain : Nat) :
    CuckooIndex.candidates { index with slots := applyStores index.slots stores, longestChain }
      = index.candidates := by
  funext userKey
  simp only [CuckooIndex.candidates, size_applyStores]

/-- After the shift each user key that was in the table has one slot, and so does the new one. -/
theorem Tidy.holdsAt_once (tidy : table.Tidy) (blocked : table.Blocked userKey)
    (read : table.shelf.arena.get handle = .ok entry) (user : entryUserKey entry = .ok userKey)
    (chosen : table.index.candidates userKey = .ok among) {room : KickPath}
    (found : findRoom table.index.isFull (choices table) among = .ok (some (room, empty)))
    (present : key = userKey ∨ ∃ slot, table.HoldsAt key slot) :
    ∃ home, (table.displacing handle (room, empty)).HoldsAt key home ∧ table.Candidate key home ∧
      ∀ other, (table.displacing handle (room, empty)).HoldsAt key other → other = home := by
  obtain ⟨chain, distinct, free⟩ :=
    findRoom_chain (fun _ member => blocked.full chosen member) found
  simp only [holdsAt_displace_iff distinct read user]
  rcases present with rfl | ⟨slot, holds⟩
  · obtain ⟨home, new⟩ := (origin_surjective distinct).1
    refine ⟨home, .inl ⟨new, rfl⟩, ⟨among, chosen, chain.mem_starts new⟩, ?_⟩
    rintro other (⟨alsoNew, _⟩ | ⟨slot, _, holds⟩)
    · exact origin_injective distinct (alsoNew.trans new.symm)
    · exact absurd holds (tidy.absent blocked slot)
  · obtain ⟨home, moved, own⟩ := tidy.shifted chain distinct free holds
    refine ⟨home, .inr ⟨slot, moved, holds⟩, own, ?_⟩
    rintro other (⟨_, rfl⟩ | ⟨source, alsoMoved, alsoHolds⟩)
    · exact absurd holds (tidy.absent blocked slot)
    · rw [tidy.once alsoHolds holds] at alsoMoved
      exact origin_injective distinct (alsoMoved.trans moved.symm)

/-- The shift along a chain fills one slot more. -/
theorem length_keys_displace {slots : Sparse Handle} {room : KickPath}
    (distinct : (empty :: room.slot :: room.earlier).Nodup)
    (full : ∀ slot ∈ room.slot :: room.earlier, (slots.get? slot).isSome)
    (free : slots.get? empty = none) :
    (displace slots handle room empty).keys.length = slots.keys.length + 1 := by
  have absent : empty ∉ slots.keys := by
    rw [Sparse.mem_keys, free]
    nofun
  have perm : (displace slots handle room empty).keys.Perm (empty :: slots.keys) := by
    refine (List.perm_ext_iff_of_nodup (Sparse.nodup_keys _)
      (List.nodup_cons.mpr ⟨absent, Sparse.nodup_keys _⟩)).mpr fun slot => ?_
    rw [Sparse.mem_keys, List.mem_cons, Sparse.mem_keys]
    exact isSome_displaced distinct full slot
  exact perm.length_eq

/-- No user key is out of the table at any time of a displacement. In a tidy table, an entry whose user
key is blocked gets its slot by stores along a chain. Each of them but the last copies what the next
slot of the chain holds at that time, none empties a slot, and after any number of them each user key
is still in a slot that it may have. At the end each of them and the new one has exactly one slot, one
that it may have, and one slot more is occupied. -/
theorem displacement_keeps_keys {now : CuckooTable} (tidy : table.Tidy)
    (read : table.shelf.arena.get handle = .ok entry) (user : entryUserKey entry = .ok userKey)
    (blocked : table.Blocked userKey) (done : settle table handle = .ok (some now)) :
    ∃ among room empty stores, table.index.candidates userKey = .ok among ∧
      findRoom table.index.isFull (choices table) among = .ok (some (room, empty)) ∧
      stores = displacementStores table.index.slots handle (room.slot :: room.earlier) empty ∧
      now.index.slots = applyStores table.index.slots stores ∧
      (∀ count, let part := table.withSlots (applyStores table.index.slots (stores.take count))
        let next := table.withSlots (applyStores table.index.slots (stores.take (count + 1)))
        (∀ source, (room.slot :: room.earlier)[count]? = some source →
          (stores[count]?).map (·.2) = some (part.index.slots.get? source)) ∧
        (∀ slot, part.index.isFull slot = true → next.index.isFull slot = true) ∧
        ∀ key slot, table.HoldsAt key slot →
          ∃ home, part.HoldsAt key home ∧ part.Candidate key home) ∧
      (∀ key, (key = userKey ∨ ∃ slot, table.HoldsAt key slot) →
        ∃ home, now.HoldsAt key home ∧ now.Candidate key home ∧
          ∀ other, now.HoldsAt key other → other = home) ∧
      now.index.slots.keys.length = table.index.slots.keys.length + 1 := by
  have ⟨among, chosen, _⟩ := blocked
  rcases Legible.settle_cases tidy.legible read user chosen with
    ⟨unblocked, _⟩ | ⟨_, room, found, moved⟩
  · exact absurd blocked unblocked
  · obtain ⟨⟨room, empty⟩, rfl, rfl⟩ :=
      Option.map_eq_some_iff.mp (Except.ok.inj (moved.symm.trans done))
    obtain ⟨chain, distinct, free⟩ :=
      findRoom_chain (fun _ member => blocked.full chosen member) found
    have full : ∀ slot ∈ room.slot :: room.earlier, (table.index.slots.get? slot).isSome :=
      fun slot onPath => isFull_of_mayMove (chain.leads onPath).choose_spec
    refine ⟨among, room, empty, _, chosen, found, rfl, rfl, fun count => ⟨?_, ?_, ?_⟩, ?_, ?_⟩
    · exact fun source next => getElem?_displacementStores distinct next
    · exact fun slot filled => isSome_applyStores_succ full count filled
    · intro key slot holds
      obtain ⟨starts, part⟩ := chain.take count
      have apart : (empty :: (room.slot :: room.earlier).take count).Nodup :=
        distinct.sublist ((List.take_sublist ..).cons_cons empty)
      obtain ⟨home, shifted, among, own, member⟩ := tidy.shifted part apart free holds
      refine ⟨home, (holdsAt_withSlots ?_).mpr holds, among, ?_, member⟩
      · exact get?_applyStores_part distinct count shifted
      · exact (congrFun (candidates_applyStores ..) key).trans own
    · intro key present
      obtain ⟨home, holds, ⟨among, own, member⟩, once⟩ :=
        tidy.holdsAt_once blocked read user chosen found present
      exact ⟨home, holds, ⟨among, (congrFun (candidates_applyStores ..) key).trans own, member⟩, once⟩
    · exact length_keys_displace distinct full (by simpa [CuckooIndex.isFull] using free)

/-- Two keys move for a third one, and each of the three has one slot then. -/
theorem displacement_keeps_two_keys :
    let a : Bytes := [9, 0, 0, 0, 97, 1, 1, 0, 0, 0, 0, 0, 0, 0, 0, 0, 0]
    let b : Bytes := [9, 0, 0, 0, 98, 1, 2, 0, 0, 0, 0, 0, 0, 0, 0, 0, 0]
    let c : Bytes := [9, 0, 0, 0, 99, 1, 3, 0, 0, 0, 0, 0, 0, 0, 0, 0, 0]
    let hash : UInt64 → Bytes → UInt64 := fun seed userKey =>
      if userKey = [97] then seed else if userKey = [98] then seed + 1 else 0
    let arena : Arena := [⟨0, ⟨0⟩, a⟩, ⟨0, ⟨1⟩, b⟩, ⟨0, ⟨2⟩, c⟩].foldl
      (fun arena draft => (arena.publish draft).toOption.getD arena) { id := 0 }
    let slots : Sparse Handle := ((Sparse.empty 3).put 0 ⟨0⟩).put 1 ⟨1⟩
    let index : CuckooIndex := { hash, hashCount := 2, slots, heights := fun _ => 1 }
    let table : CuckooTable := { shelf := { order := .versioned, arena }, index }
    ∃ now, table.settle ⟨2⟩ = .ok (some now) ∧ now.index.slots.keys.length = 3 ∧
      ∀ key ∈ [[97], [98], [99]], ∃! home, now.HoldsAt key home := by
  intro a b c hash arena slots index table
  have reads : arena.get ⟨0⟩ = .ok a ∧ arena.get ⟨1⟩ = .ok b ∧ arena.get ⟨2⟩ = .ok c := by
    decide +kernel
  have full : ∀ {slot handle}, table.index.slots.get? slot = some handle →
      (slot = 1 ∧ handle = ⟨1⟩) ∨ slot = 0 ∧ handle = ⟨0⟩ := by
    intro slot handle filled
    simp only [table, index, slots, Sparse.get?_put, Sparse.get?_empty] at filled
    split at filled
    · next same => exact .inl ⟨same, (Option.some.inj filled).symm⟩
    · split at filled
      · next same => exact .inr ⟨same, (Option.some.inj filled).symm⟩
      · cases filled
  have tidy : table.Tidy := by
    constructor
    · intro slot handle filled
      rcases full filled with ⟨rfl, rfl⟩ | ⟨rfl, rfl⟩
      · exact ⟨b, [98], reads.2.1, by decide +kernel, [1, 2], by decide +kernel, by decide⟩
      · exact ⟨a, [97], reads.1, by decide +kernel, [0, 1], by decide +kernel, by decide⟩
    · have keys : ∀ {key slot}, table.HoldsAt key slot →
          (slot = 1 ∧ key = [98]) ∨ slot = 0 ∧ key = [97] := by
        rintro key slot ⟨entry, shown, user⟩
        simp only [entryAt] at shown
        split at shown
        · cases shown
        · next handle filled =>
          rcases full filled with ⟨rfl, rfl⟩ | ⟨rfl, rfl⟩
          · simp only [table, reads] at shown
            obtain rfl := Option.some.inj (Except.ok.inj shown)
            exact .inl ⟨rfl, (Except.ok.inj user).symm⟩
          · simp only [table, reads] at shown
            obtain rfl := Option.some.inj (Except.ok.inj shown)
            exact .inr ⟨rfl, (Except.ok.inj user).symm⟩
      intro key slot other holds alsoHolds
      rcases keys holds with ⟨rfl, rfl⟩ | ⟨rfl, rfl⟩ <;>
        rcases keys alsoHolds with ⟨rfl, _⟩ | ⟨rfl, _⟩ <;> simp_all
  have blocked : table.Blocked [99] := by
    refine ⟨[0, 0], by decide +kernel, fun slot member => ?_⟩
    obtain rfl : slot = 0 := by simpa using member
    exact ⟨a, [97], by decide +kernel, by decide +kernel, by decide⟩
  have succeeds : (table.settle ⟨2⟩).toOption.join.isSome = true := by decide +kernel
  cases done : table.settle ⟨2⟩ with
  | error failure => simp [done, Except.toOption] at succeeds
  | ok settled =>
    cases settled with
    | none => simp [done, Except.toOption] at succeeds
    | some now =>
      obtain ⟨_, _, _, _, _, _, _, _, _, once, grown⟩ :=
        displacement_keeps_keys tidy reads.2.2 (by decide +kernel) blocked done
      refine ⟨now, rfl, grown.trans (by decide +kernel), fun key member => ?_⟩
      have present : key = [99] ∨ ∃ slot, table.HoldsAt key slot := by
        simp only [List.mem_cons, List.not_mem_nil, or_false] at member
        rcases member with rfl | rfl | rfl
        · exact .inr ⟨0, a, by decide +kernel, by decide +kernel⟩
        · exact .inr ⟨1, b, by decide +kernel, by decide +kernel⟩
        · exact .inl rfl
      obtain ⟨home, holds, _, alone⟩ := once key present
      exact ⟨home, holds, alone⟩

end Moves

section Holds

variable {table : CuckooTable} {slots : Nat → Option Bytes} {spare : Option Bytes}
  {taken : List Bytes}

/-- Every table that holds latest versions is tidy. -/
theorem Holds.tidy (holds : table.Holds slots spare taken) : table.Tidy where
  home := by
    intro slot handle full
    have shown := holds.shown slot
    simp only [entryAt, full] at shown
    cases read : table.shelf.arena.get handle with
    | error failure => simp [read, Except.map] at shown
    | ok entry =>
      rw [read] at shown
      obtain ⟨userKey, user, own⟩ := holds.housed.own (Except.ok.inj shown).symm
      exact ⟨entry, userKey, rfl, user, _, holds.chooses.candidates_eq userKey, own⟩
  once := by
    rintro userKey slot other ⟨entry, shown, user⟩ ⟨entry', shown', user'⟩
    have full := Except.ok.inj ((holds.shown slot).symm.trans shown)
    have full' := Except.ok.inj ((holds.shown other).symm.trans shown')
    exact holds.housed.once full full' (user.trans user'.symm)

end Holds

end CuckooTable

end WriteBuffer
