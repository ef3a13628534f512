import Mathlib
import WriteBuffer.Proofs.Storage

/-!
Room for entries and for nodes. Indices are reserved in order, so a store has room as long as indices
are left (`ChunkStore.Packed.push_succeeds`), and a draft can be published while it is the last one
that was handed out (`Arena.publish_allocated`). A table makes at most one node for an entry that it
publishes, and an arena never uses up all indices; once an entry is published, there is room for its
node (`Roomy.publish`).
-/
namespace WriteBuffer

namespace ChunkStore

variable {α : Type} {store pushed : ChunkStore α} {value : α} {index : UInt32}

/-- Every filled slot has a reserved index. -/
def Packed (store : ChunkStore α) : Prop :=
  ∀ index, (store.get? index).isSome → index.toNat < store.reserved

theorem packed_empty : (empty : ChunkStore α).Packed := by
  intro index filled
  simp at filled

/-- A store of which the filled slots are reserved has room while indices are left. -/
theorem Packed.push_succeeds (packed : store.Packed) (few : store.reserved < UInt32.size - 1)
    (value : α) : ∃ pushed index, store.push value = (pushed, .ok index) := by
  have fits : (UInt32.ofNat store.reserved).toNat = store.reserved :=
    Nat.mod_eq_of_lt (Nat.lt_of_lt_of_le few (Nat.sub_le ..))
  cases free : store.get? (UInt32.ofNat store.reserved) with
  | some old => exact absurd (packed _ (by rw [free]; rfl)) (by omega)
  | none =>
    have reserved : store.reserve = ({ store with reserved := store.reserved + 1 },
        .ok (UInt32.ofNat store.reserved)) := by
      simp only [reserve, few, if_true]
    have stillFree : ChunkStore.get? { store with reserved := store.reserved + 1 }
        (UInt32.ofNat store.reserved) = none := free
    simp [push, reserved, publish, stillFree, Except.map]

/-- A push reserves the index that it fills. -/
theorem push_reserved (done : store.push value = (pushed, .ok index)) :
    pushed.reserved = store.reserved + 1 ∧ index.toNat = store.reserved := by
  simp only [push, reserve] at done
  split at done
  · cases done
  · next entered index' reserved =>
    obtain ⟨rfl, answer⟩ := Prod.mk.inj reserved
    split at answer
    · next few =>
      obtain rfl := Except.ok.inj answer
      simp only [publish] at done
      split at done
      · cases done
      · obtain ⟨rfl, same⟩ := Prod.mk.inj done
        obtain rfl := Except.ok.inj same
        exact ⟨rfl, Nat.mod_eq_of_lt (Nat.lt_of_lt_of_le few (Nat.sub_le ..))⟩
    · cases answer

theorem reserved_lt_of_push (done : store.push value = (pushed, .ok index)) :
    store.reserved < UInt32.size - 1 := by
  by_contra full
  simp only [push, reserve, if_neg full] at done
  cases done

theorem Packed.push (packed : store.Packed) (done : store.push value = (pushed, .ok index)) :
    pushed.Packed := by
  obtain ⟨reserved, place⟩ := push_reserved done
  obtain ⟨_, _, slots⟩ := push_ok done
  intro other filled
  rw [slots] at filled
  split at filled
  · next same =>
    rw [same]
    omega
  · exact Nat.lt_of_lt_of_le (packed other filled) (by omega)

@[simp] theorem reserved_update (store : ChunkStore α) (index : UInt32) (change : α → α) :
    (store.update index change).reserved = store.reserved := by
  simp only [update]
  split <;> rfl

theorem Packed.update (packed : store.Packed) (index : UInt32) (change : α → α) :
    (store.update index change).Packed := by
  intro other filled
  rw [reserved_update]
  refine packed other ?_
  rw [get?_update] at filled
  split at filled
  · next same => simpa [same] using filled
  · exact filled

end ChunkStore

namespace Arena

variable {arena new : Arena} {length : Nat} {draft : Draft}

theorem allocate_ok_iff : (arena.allocate length).2 = .ok draft ↔
    arena.entries.reserved < UInt32.size - 1 ∧ requireAllocatable length 1 = .ok () ∧
      draft = ⟨arena.id, ⟨.ofNat arena.entries.reserved⟩, List.replicate length 0⟩ := by
  by_cases few : arena.entries.reserved < UInt32.size - 1
  · simp only [allocate, ChunkStore.reserve, few, if_true, zeroedBuffer, bind, Except.bind, pure,
      Except.pure]
    cases requireAllocatable length 1 <;> simp [eq_comm]
  · simp only [allocate, ChunkStore.reserve, few, if_false, bind, Except.bind, reduceCtorEq,
      false_and]

theorem publish_reserved (stored : arena.publish draft = .ok new) :
    new.entries.reserved = arena.entries.reserved := by
  simp only [publish, ChunkStore.publish] at stored
  split at stored
  · cases stored
  · split at stored
    · cases stored
    · next entries same =>
      split at same
      · cases same
      · obtain rfl := (Prod.mk.inj same).1
        obtain rfl := Except.ok.inj stored
        rfl

/-- A draft that was just handed out can be published, whatever it is filled with. -/
theorem publish_allocated (packed : arena.entries.Packed)
    (handedOut : (arena.allocate length).2 = .ok draft) (bytes : Bytes) :
    ∃ new, (arena.allocate length).1.publish { draft with bytes } = .ok new ∧
      new.entries.Packed ∧ new.entries.reserved = arena.entries.reserved + 1 := by
  obtain ⟨few, _, rfl⟩ := allocate_ok_iff.mp handedOut
  obtain ⟨pushed, index, done⟩ := packed.push_succeeds few bytes
  obtain ⟨reserved, _⟩ := ChunkStore.push_reserved done
  have packedNow := packed.push done
  simp only [ChunkStore.push, ChunkStore.reserve, few, if_true] at done
  obtain ⟨same, answer⟩ := Prod.mk.inj done
  cases published : ChunkStore.publish
      { arena.entries with reserved := arena.entries.reserved + 1 }
      (.ofNat arena.entries.reserved) bytes with
  | mk entries result =>
    rw [published] at same answer
    cases result with
    | error failure => cases answer
    | ok filled =>
      obtain rfl : entries = pushed := same
      refine ⟨{ arena with entries, publishedBytes := arena.publishedBytes + bytes.length }, ?_,
        packedNow, reserved⟩
      simp only [publish, allocate, ChunkStore.reserve, ne_eq, not_true_eq_false, if_false, published]

end Arena

/-- Drafts are handed out under handles that can name an entry, whatever they are filled with. -/
def Draft.Issued (draft : Draft) : Prop :=
  ∃ (arena : Arena) (length : Nat) (blank : Draft), (arena.allocate length).2 = .ok blank ∧
    draft.arena = blank.arena ∧ draft.handle = blank.handle

theorem Draft.Issued.ne_nowhere {draft : Draft} (issued : draft.Issued) :
    draft.handle ≠ .nowhere := by
  obtain ⟨arena, length, blank, handedOut, _, same⟩ := issued
  obtain ⟨few, _, rfl⟩ := Arena.allocate_ok_iff.mp handedOut
  rw [same]
  intro last
  have big := congrArg (fun handle => handle.index.toNat) last
  have fits : (UInt32.ofNat arena.entries.reserved).toNat = arena.entries.reserved :=
    Nat.mod_eq_of_lt (Nat.lt_of_lt_of_le few (Nat.sub_le ..))
  have low : arena.entries.reserved < 4294967295 := few
  simp only [fits, Handle.nowhere, UInt32.reduceToNat] at big
  omega

variable {α : Type} {nodes pushed : ChunkStore α} {arena new : Arena} {draft : Draft}

/-- A store of nodes holds no more of them than entries are published. -/
structure Roomy (arena : Arena) (nodes : ChunkStore α) : Prop where
  packed : nodes.Packed
  published : ∃ handles : Finset UInt32, nodes.reserved ≤ handles.card ∧
    ∀ index ∈ handles, index ≠ Handle.nowhere.index ∧ ∃ entry, arena.get ⟨index⟩ = .ok entry

theorem roomy_empty (arena : Arena) : Roomy arena (.empty : ChunkStore α) :=
  ⟨ChunkStore.packed_empty, ∅, Nat.le_refl 0, by simp⟩

theorem Roomy.keeps (roomy : Roomy arena nodes) (keeps : arena.Keeps new) : Roomy new nodes := by
  obtain ⟨packed, handles, few, published⟩ := roomy
  refine ⟨packed, handles, few, fun index member => ?_⟩
  obtain ⟨usable, entry, found⟩ := published index member
  exact ⟨usable, entry, keeps found⟩

theorem Roomy.update (roomy : Roomy arena nodes) (index : UInt32) (change : α → α) :
    Roomy arena (nodes.update index change) :=
  ⟨roomy.packed.update index change, by rw [ChunkStore.reserved_update]; exact roomy.published⟩

theorem card_lt_size {handles : Finset UInt32}
    (usable : ∀ index ∈ handles, index ≠ Handle.nowhere.index) : handles.card < UInt32.size := by
  have below : handles.image UInt32.toNat ⊆ Finset.range (UInt32.size - 1) := by
    intro n member
    obtain ⟨index, inHandles, rfl⟩ := Finset.mem_image.mp member
    have bound := index.toNat_lt
    have differs : index.toNat ≠ 4294967295 := fun last =>
      usable index inHandles (UInt32.toNat_inj.mp last)
    simp only [Finset.mem_range, UInt32.size]
    omega
  have few := Finset.card_le_card below
  rw [Finset.card_image_of_injective _ fun _ _ same => UInt32.toNat_inj.mp same, Finset.card_range]
    at few
  simp only [UInt32.size] at few ⊢
  omega

/-- Once an entry is published there is room for its node, and no more nodes than entries then. -/
theorem Roomy.publish (roomy : Roomy arena nodes) (usable : draft.handle ≠ .nowhere)
    (stored : arena.publish draft = .ok new) (value : α) :
    ∃ pushed index, nodes.push value = (pushed, .ok index) ∧ Roomy new pushed := by
  obtain ⟨packed, handles, few, published⟩ := roomy
  obtain ⟨added, keeps⟩ := Arena.get_publish stored
  have another : draft.handle.index ∉ handles := by
    intro member
    obtain ⟨_, entry, found⟩ := published _ member
    exact Arena.publish_free stored entry found
  have all : ∀ index ∈ insert draft.handle.index handles, index ≠ Handle.nowhere.index ∧
      ∃ entry, new.get ⟨index⟩ = .ok entry := by
    intro index member
    rcases Finset.mem_insert.mp member with rfl | before
    · exact ⟨fun last => usable (congrArg Handle.mk last), draft.bytes, added⟩
    · obtain ⟨usable, entry, found⟩ := published index before
      exact ⟨usable, entry, keeps found⟩
  have more := Finset.card_insert_of_notMem another
  have left := card_lt_size fun index member => (all index member).1
  obtain ⟨pushed, index, done⟩ := packed.push_succeeds (by omega) value
  refine ⟨pushed, index, done, packed.push done, _, ?_, all⟩
  rw [(ChunkStore.push_reserved done).1]
  omega

end WriteBuffer
