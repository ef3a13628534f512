import Mathlib
import WriteBuffer.Proofs.EntryOrder
import WriteBuffer.Store.Shelf

/-!
What stores keep. A store of slots counts the filled ones (`ChunkStore.Tallied`), so no list of
distinct filled slots is longer than the store, and an arena that publishes a draft keeps every
entry published before (`Arena.get_publish`).
-/
namespace WriteBuffer

theorem bind_eq_ok {ε α β : Type} {first : Except ε α} {rest : α → Except ε β} {result : β} :
    (first >>= rest) = .ok result ↔ ∃ value, first = .ok value ∧ rest value = .ok result := by
  cases first <;> simp [bind, Except.bind]

theorem mapM_eq_map {α β : Type} {f : α → Except Failure β} {g : α → β} {xs : List α}
    (each : ∀ x ∈ xs, f x = .ok (g x)) : xs.mapM f = .ok (xs.map g) := by
  induction xs with
  | nil => rfl
  | cons x rest ih =>
    rw [List.mapM_cons, each x List.mem_cons_self,
      ih fun y member => each y (List.mem_cons_of_mem _ member)]
    rfl

namespace ChunkStore

variable {α : Type}

/-- The size of a store is the number of its filled slots. -/
def Tallied (store : ChunkStore α) : Prop :=
  ∃ filled : Finset UInt32,
    filled.card = store.size ∧ ∀ index, index ∈ filled ↔ (store.get? index).isSome

@[simp] theorem get?_empty (index : UInt32) : (empty : ChunkStore α).get? index = none := by
  simp only [get?, empty, Array.getElem?_replicate]
  split <;> rfl

theorem tallied_empty : (empty : ChunkStore α).Tallied :=
  ⟨∅, rfl, by simp⟩

theorem Tallied.length_le {store : ChunkStore α} (tallied : store.Tallied) {indices : List UInt32}
    (distinct : indices.Nodup) (taken : ∀ index ∈ indices, (store.get? index).isSome) :
    indices.length ≤ store.size := by
  obtain ⟨filled, count, exact⟩ := tallied
  rw [← count, ← List.toFinset_card_of_nodup distinct]
  refine Finset.card_le_card ?_
  intro index member
  exact (exact index).mpr (taken index (List.mem_toFinset.mp member))

/-- A push fills the free slot whose index it answers. -/
theorem push_ok {store pushed : ChunkStore α} {value : α} {index : UInt32}
    (done : store.push value = (pushed, .ok index)) :
    store.get? index = none ∧ pushed.size = store.size + 1 ∧
      ∀ other, pushed.get? other = if other = index then some value else store.get? other := by
  simp only [push, reserve] at done
  split at done
  · simp at done
  · next reserved found same =>
    obtain ⟨rfl, answer⟩ := Prod.mk.inj same
    simp only [Prod.mk.injEq] at done
    obtain ⟨rfl, kept⟩ := done
    -- Reserving an index fills no slot.
    cases before : store.get? found with
    | some old =>
      have full : (ChunkStore.get? { store with reserved := store.reserved + 1 } found)
        = some old := before
      simp [publish, full, Except.map] at kept
    | none =>
      have free : (ChunkStore.get? { store with reserved := store.reserved + 1 } found)
        = none := before
      simp only [publish, free, Option.isSome_none, Bool.false_eq_true, if_false, Except.map,
        Except.ok.injEq] at kept
      subst kept
      refine ⟨before, by simp [publish, free, size, setSlot], ?_⟩
      intro other
      rw [get?_publish free]
      rfl

theorem Tallied.push {store pushed : ChunkStore α} (tallied : store.Tallied) {value : α}
    {index : UInt32} (done : store.push value = (pushed, .ok index)) : pushed.Tallied := by
  obtain ⟨filled, count, exact⟩ := tallied
  obtain ⟨free, size, slots⟩ := push_ok done
  refine ⟨insert index filled, ?_, ?_⟩
  · rw [Finset.card_insert_of_notMem, count, size]
    simp [exact, free]
  · intro other
    rw [Finset.mem_insert, slots, exact]
    by_cases same : other = index <;> simp [same]

@[simp] theorem get?_update (store : ChunkStore α) (index other : UInt32) (change : α → α) :
    (store.update index change).get? other
      = if other = index then (store.get? index).map change else store.get? other := by
  cases before : store.get? index with
  | none =>
    simp only [update, before, Option.map_none]
    split
    · next same => rw [same, before]
    · rfl
  | some value => simp [update, before]

@[simp] theorem size_update (store : ChunkStore α) (index : UInt32) (change : α → α) :
    (store.update index change).size = store.size := by
  simp only [update]
  split <;> rfl

theorem Tallied.update {store : ChunkStore α} (tallied : store.Tallied) (index : UInt32)
    (change : α → α) : (store.update index change).Tallied := by
  obtain ⟨filled, count, exact⟩ := tallied
  refine ⟨filled, by rw [count, size_update], ?_⟩
  intro other
  rw [exact, get?_update]
  by_cases same : other = index <;> simp [same]

theorem push_empty (value : α) : ∃ pushed, empty.push value = (pushed, .ok 0) := by
  have reserved : (empty : ChunkStore α).reserve
      = ({ (empty : ChunkStore α) with reserved := 1 }, .ok 0) := rfl
  have free : ({ (empty : ChunkStore α) with reserved := 1 } : ChunkStore α).get? 0 = none :=
    get?_empty 0
  simp [push, reserved, publish, free, Except.map]

end ChunkStore

namespace Arena

/-- One arena has every entry of another one. -/
def Keeps (old new : Arena) : Prop :=
  ∀ {handle entry}, old.get handle = .ok entry → new.get handle = .ok entry

theorem get_eq_ok_iff (arena : Arena) (handle : Handle) (entry : Bytes) :
    arena.get handle = .ok entry ↔ arena.entries.get? handle.index = some entry := by
  simp only [get]
  split
  · next found => simp [found]
  · next missing => simp [missing]

/-- Publishing a draft adds its entry and keeps all others. -/
theorem get_publish {arena new : Arena} {draft : Draft} (published : arena.publish draft = .ok new) :
    new.get draft.handle = .ok draft.bytes ∧ arena.Keeps new := by
  simp only [publish] at published
  split at published
  · simp at published
  · split at published
    · simp at published
    · next entries same =>
      have answer := congrArg Prod.snd same
      have slots := congrArg Prod.fst same
      have free : arena.entries.get? draft.handle.index = none := by
        cases before : arena.entries.get? draft.handle.index with
        | none => rfl
        | some old => simp [ChunkStore.publish, before] at answer
      obtain rfl := Except.ok.inj published
      have read := ChunkStore.get?_publish free draft.bytes
      rw [slots] at read
      refine ⟨(get_eq_ok_iff _ _ _).mpr (by rw [read, if_pos rfl]), ?_⟩
      intro handle entry before
      refine (get_eq_ok_iff _ _ _).mpr ?_
      rw [get_eq_ok_iff] at before
      rw [read, if_neg, before]
      intro taken
      rw [taken, free] at before
      cases before

theorem publish_free {arena new : Arena} {draft : Draft} (published : arena.publish draft = .ok new)
    (entry : Bytes) : arena.get draft.handle ≠ .ok entry := by
  intro before
  rw [get_eq_ok_iff] at before
  simp only [publish, ChunkStore.publish, before, Option.isSome_some, if_true] at published
  split at published <;> cases published

theorem publish_refused {arena : Arena} {draft : Draft} {failure : Failure}
    (refused : arena.publish draft = .error failure) :
    failure = .foreignBuffer ∨ failure = .slotTaken draft.handle.index := by
  simp only [publish] at refused
  split at refused
  · exact .inl (Except.error.inj refused).symm
  · simp only [ChunkStore.publish] at refused
    split at refused
    · next same =>
      split at same
      · simp only [Prod.mk.injEq, Except.error.injEq] at same
        exact .inr ((Except.error.inj refused).symm.trans same.2.symm)
      · simp at same
    · cases refused

theorem keeps_allocate (arena : Arena) (length : Nat) : arena.Keeps (arena.allocate length).1 :=
  fun found => found

end Arena

namespace Shelf

/-- A shelf has the order and every entry of another one. -/
structure Extends (old new : Shelf) : Prop where
  order : new.order = old.order
  keeps : old.arena.Keeps new.arena

theorem Extends.refl (shelf : Shelf) : shelf.Extends shelf := ⟨rfl, fun found => found⟩

theorem Extends.trans {old middle new : Shelf} (first : old.Extends middle)
    (second : middle.Extends new) : old.Extends new :=
  ⟨second.order.trans first.order, fun found => second.keeps (first.keeps found)⟩

/-- Handles name the given entries, one by one. -/
def Reads (shelf : Shelf) (handles : List Handle) (entries : List Bytes) : Prop :=
  handles.map shelf.arena.get = entries.map .ok

variable {shelf new : Shelf} {handles : List Handle} {entries : List Bytes}

theorem Reads.length_eq (reads : shelf.Reads handles entries) :
    handles.length = entries.length := by
  simpa using congrArg List.length reads

theorem Reads.getElem? (reads : shelf.Reads handles entries) (index : Nat) :
    (handles[index]?).map shelf.arena.get = (entries[index]?).map .ok := by
  rw [← List.getElem?_map, ← List.getElem?_map, reads]

theorem Reads.exists_entry (reads : shelf.Reads handles entries) {handle : Handle}
    (member : handle ∈ handles) : ∃ entry ∈ entries, shelf.arena.get handle = .ok entry := by
  obtain ⟨entry, inEntries, read⟩ :=
    List.mem_map.mp (reads ▸ List.mem_map_of_mem (f := shelf.arena.get) member)
  exact ⟨entry, inEntries, read.symm⟩

theorem Reads.exists_handle (reads : shelf.Reads handles entries) {entry : Bytes}
    (member : entry ∈ entries) : ∃ handle ∈ handles, shelf.arena.get handle = .ok entry := by
  have named : Except.ok entry ∈ handles.map shelf.arena.get :=
    reads ▸ List.mem_map_of_mem member
  exact List.mem_map.mp named

theorem Reads.keeps (reads : shelf.Reads handles entries) (keeps : shelf.arena.Keeps new.arena) :
    new.Reads handles entries := by
  induction handles generalizing entries with
  | nil => simpa [Reads] using reads
  | cons handle rest ih =>
    cases entries with
    | nil => simp [Reads] at reads
    | cons entry others =>
      simp only [Reads, List.map_cons, List.cons.injEq] at reads ⊢
      exact ⟨keeps reads.1, ih reads.2⟩

theorem Reads.append {more : List Handle} {others : List Bytes}
    (reads : shelf.Reads handles entries) (readMore : shelf.Reads more others) :
    shelf.Reads (handles ++ more) (entries ++ others) := by
  rw [Reads, List.map_append, List.map_append, reads, readMore]

theorem Reads.mapM_eq (reads : shelf.Reads handles entries) :
    handles.mapM shelf.arena.get = .ok entries := by
  induction handles generalizing entries with
  | nil =>
    obtain rfl : entries = [] := by simpa [Reads] using reads.symm
    rfl
  | cons handle rest ih =>
    cases entries with
    | nil => simp [Reads] at reads
    | cons entry others =>
      simp only [Reads, List.map_cons, List.cons.injEq] at reads
      rw [List.mapM_cons, reads.1, ih reads.2]
      rfl

/-- Rearranged handles name rearranged entries. -/
theorem Reads.perm {others : List Handle} (reads : shelf.Reads handles entries)
    (perm : others.Perm handles) : ∃ arranged, shelf.Reads others arranged ∧
      arranged.Perm entries := by
  induction perm generalizing entries with
  | nil => exact ⟨entries, reads, .refl _⟩
  | cons handle _ ih =>
    cases entries with
    | nil => simp [Reads] at reads
    | cons entry rest =>
      simp only [Reads, List.map_cons, List.cons.injEq] at reads
      obtain ⟨arranged, read, perm⟩ := ih reads.2
      exact ⟨entry :: arranged, by simp [Reads, reads.1, show _ = _ from read], perm.cons entry⟩
  | swap a b rest =>
    match entries with
    | [] | [_] => simp [Reads] at reads
    | first :: second :: tail =>
      simp only [Reads, List.map_cons, List.cons.injEq] at reads
      exact ⟨second :: first :: tail, by simp [Reads, reads], .swap ..⟩
  | trans _ _ ihFirst ihSecond =>
    obtain ⟨middle, readMiddle, permMiddle⟩ := ihSecond reads
    obtain ⟨arranged, read, perm⟩ := ihFirst readMiddle
    exact ⟨arranged, read, perm.trans permMiddle⟩

theorem compareHandles_eq {a b : Handle} {entryA entryB : Bytes}
    (readA : shelf.arena.get a = .ok entryA) (readB : shelf.arena.get b = .ok entryB) :
    shelf.compareHandles a b = shelf.order.compareEntries entryA entryB := by
  simp only [compareHandles, compareEntry, readA, readB]
  rfl

theorem compareKey_eq {handle : Handle} {entry : Bytes} (read : shelf.arena.get handle = .ok entry)
    (target : Bytes) :
    shelf.compareKey handle target = shelf.order.compareEntryKey entry target := by
  simp only [compareKey, read]
  rfl

theorem compareEntry_eq {handle : Handle} {entry : Bytes}
    (read : shelf.arena.get handle = .ok entry) (other : Bytes) :
    shelf.compareEntry handle other = shelf.order.compareEntries entry other := by
  simp only [compareEntry, read]
  rfl

theorem isBelowEntry_eq {entry key : Bytes} (cut : entryKey entry = .ok key) (handle : Handle) :
    shelf.isBelowEntry entry handle = shelf.isBelowKey key handle := by
  simp only [isBelowEntry, isBelowKey, compareEntry, compareKey]
  cases shelf.arena.get handle with
  | error failure => rfl
  | ok other =>
    simp only [bind, Except.bind, KeyOrder.compareEntries_eq shelf.order cut]

end Shelf

end WriteBuffer
