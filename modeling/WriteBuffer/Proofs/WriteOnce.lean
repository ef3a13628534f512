import Mathlib
import WriteBuffer.Proofs.Storage

/-!
Stores of slots as maps that are written once. A store counts the indices that were claimed and has, in
every slot, what was written there first (`ChunkStore.Tracks`); each operation keeps it so
(`ChunkStore.Tracks.perform`). Its chunks are those of the indices that were written, and no two indices
share a slot, so after any run of operations the store answers as the map and the counter do
(`ChunkStore.run_writeOnce`).
-/
namespace WriteBuffer

/-- What may be done to a store of slots; reading it changes nothing. -/
inductive ChunkOperation (α : Type)
  | reserve
  | publish (index : UInt32) (value : α)
  | push (value : α)

/-- Whether an operation claims the next index. -/
def ChunkOperation.claims {α : Type} : ChunkOperation α → Bool
  | reserve | push _ => true
  | publish .. => false

namespace ChunkStore

variable {α : Type}

def perform (store : ChunkStore α) : ChunkOperation α → ChunkStore α
  | .reserve => store.reserve.1
  | .publish index value => (store.publish index value).1
  | .push value => (store.push value).1

def run (store : ChunkStore α) (operations : List (ChunkOperation α)) : ChunkStore α :=
  operations.foldl perform store

/-- The write that an operation makes: that of a publish or a push that succeeds. -/
def written (store : ChunkStore α) : ChunkOperation α → List (UInt32 × α)
  | .reserve => []
  | .publish index value =>
    match (store.publish index value).2 with
    | .ok () => [(index, value)]
    | .error _ => []
  | .push value =>
    match (store.push value).2 with
    | .ok index => [(index, value)]
    | .error _ => []

/-- The writes that succeed in a run, in order. -/
def writes : ChunkStore α → List (ChunkOperation α) → List (UInt32 × α)
  | _, [] => []
  | store, operation :: rest => store.written operation ++ writes (store.perform operation) rest

def hasChunk (store : ChunkStore α) (chunk : Nat) : Bool := (store.chunks[chunk]?).join.isSome

/-- A store answers as a map that is written once, to which the given writes were made, and a counter of
claimed indices. -/
structure WriteOnce (store : ChunkStore α) (claimed : Nat) (writes : List (UInt32 × α)) : Prop where
  reserve_eq : store.reserve.2
    = if claimed < UInt32.size - 1 then .ok (.ofNat claimed) else .error .storeFull
  push_eq : ∀ value, (store.push value).2
    = if claimed < UInt32.size - 1 then
        if .ofNat claimed ∈ writes.map (·.1) then .error (.slotTaken (.ofNat claimed))
        else .ok (.ofNat claimed)
      else .error .storeFull
  get?_eq_some_iff : ∀ index value, store.get? index = some value ↔ (index, value) ∈ writes
  distinct : (writes.map (·.1)).Nodup
  stays : ∀ later index value, store.get? index = some value →
    (store.run later).get? index = some value
  publish_eq : ∀ index value, (store.publish index value).2
    = if index ∈ writes.map (·.1) then .error (.slotTaken index) else .ok ()
  publish_taken : ∀ index value, index ∈ writes.map (·.1) → (store.publish index value).1 = store
  /-- A push onto a written slot uses up its index and changes nothing else. -/
  push_taken : ∀ value, .ofNat claimed ∈ writes.map (·.1) →
    (store.push value).1 = { store with reserved := claimed + 1 }
  size_eq : store.size = writes.length
  allocatedSlots_eq : store.allocatedSlots
    = ∑ chunk ∈ (writes.map fun write => (locate write.1).1).toFinset, 64 * 2 ^ chunk

section Steps

variable {store : ChunkStore α} {index : UInt32} {value : α}

theorem publish_of_taken (taken : (store.get? index).isSome) :
    store.publish index value = (store, .error (.slotTaken index)) := by
  rw [publish, if_pos taken]

theorem publish_of_free (free : store.get? index = none) : store.publish index value
    = ({ store.setSlot index value with published := store.published + 1 }, .ok ()) := by
  simp only [publish, free, Option.isSome_none, Bool.false_eq_true, if_false]

theorem push_of_room (room : store.reserved < UInt32.size - 1) : store.push value
    = ((publish { store with reserved := store.reserved + 1 } (.ofNat store.reserved) value).1,
        (publish { store with reserved := store.reserved + 1 } (.ofNat store.reserved) value).2.map
          fun _ => .ofNat store.reserved) := by
  simp only [push, reserve, if_pos room]

theorem push_of_full (full : ¬ store.reserved < UInt32.size - 1) :
    store.push value = ({ store with reserved := store.reserved + 1 }, .error .storeFull) := by
  simp only [push, reserve, if_neg full]

theorem hasChunk_setSlot (store : ChunkStore α) (index : UInt32) (value : α) (chunk : Nat) :
    (store.setSlot index value).hasChunk chunk
      = (decide (chunk = (locate index).1) || store.hasChunk chunk) := by
  have inside : (locate index).1 < store.chunks.size := store.size_chunks ▸ locate_fst_lt index
  simp only [hasChunk, setSlot, Array.getElem?_modify]
  by_cases same : (locate index).1 = chunk
  · subst same
    rw [if_pos rfl, Array.getElem?_eq_getElem inside]
    simp [fill]
  · rw [if_neg same, decide_eq_false (Ne.symm same), Bool.false_or]

end Steps

/-- What a store counts, has in its slots and has made chunks for, after some claims and writes. -/
structure Tracks (store : ChunkStore α) (claimed : Nat) (writes : List (UInt32 × α)) : Prop where
  reserved : store.reserved = claimed
  published : store.published = writes.length
  slots : ∀ index value, store.get? index = some value ↔ (index, value) ∈ writes
  distinct : (writes.map (·.1)).Nodup
  made : ∀ chunk, store.hasChunk chunk ↔ chunk ∈ writes.map fun write => (locate write.1).1

theorem tracks_empty : (empty : ChunkStore α).Tracks 0 [] where
  reserved := rfl
  published := rfl
  slots := by simp
  distinct := .nil
  made := by
    intro chunk
    simp only [hasChunk, empty, Array.getElem?_replicate]
    split <;> simp

namespace Tracks

variable {store : ChunkStore α} {claimed : Nat} {writes : List (UInt32 × α)} {index : UInt32}
  {value : α}

theorem isSome_iff (tracks : store.Tracks claimed writes) :
    (store.get? index).isSome ↔ index ∈ writes.map (·.1) := by
  rw [Option.isSome_iff_exists, List.mem_map]
  constructor
  · rintro ⟨value, found⟩
    exact ⟨(index, value), (tracks.slots index value).mp found, rfl⟩
  · rintro ⟨⟨_, value⟩, member, rfl⟩
    exact ⟨value, (tracks.slots _ value).mpr member⟩

theorem free (tracks : store.Tracks claimed writes) (fresh : index ∉ writes.map (·.1)) :
    store.get? index = none :=
  Option.not_isSome_iff_eq_none.mp fun taken => fresh (tracks.isSome_iff.mp taken)

theorem reserve (tracks : store.Tracks claimed writes) :
    Tracks { store with reserved := store.reserved + 1 } (claimed + 1) writes where
  reserved := congrArg (· + 1) tracks.reserved
  published := tracks.published
  slots := tracks.slots
  distinct := tracks.distinct
  made := tracks.made

/-- Filling a free slot adds one write. -/
theorem fill (tracks : store.Tracks claimed writes) (fresh : index ∉ writes.map (·.1)) :
    Tracks { store.setSlot index value with published := store.published + 1 } claimed
      (writes ++ [(index, value)]) where
  reserved := tracks.reserved
  published := by rw [List.length_append, List.length_singleton, tracks.published]
  slots := by
    intro other content
    have read := get?_setSlot store index other value
    rw [show get? { store.setSlot index value with published := store.published + 1 } other
      = (store.setSlot index value).get? other from rfl, read, List.mem_append, List.mem_singleton,
      Prod.mk.injEq]
    by_cases same : other = index
    · have unwritten : (other, content) ∉ writes := fun member =>
        fresh (same ▸ List.mem_map_of_mem member)
      simp [same, eq_comm, same ▸ unwritten]
    · simp [same, tracks.slots]
  distinct := by
    rw [List.map_append, List.map_singleton, ← List.concat_eq_append]
    exact tracks.distinct.concat fresh
  made := by
    intro chunk
    have chunks := hasChunk_setSlot store index value chunk
    rw [show hasChunk { store.setSlot index value with published := store.published + 1 } chunk
      = (store.setSlot index value).hasChunk chunk from rfl, chunks, Bool.or_eq_true,
      decide_eq_true_iff, tracks.made, List.map_append, List.mem_append, List.map_singleton,
      List.mem_singleton, or_comm]

/-- A publish adds its write or fails and changes nothing. -/
theorem publish (tracks : store.Tracks claimed writes) (index : UInt32) (value : α) :
    (store.publish index value).1.Tracks claimed
      (writes ++ if index ∈ writes.map (·.1) then [] else [(index, value)]) := by
  by_cases taken : index ∈ writes.map (·.1)
  · rw [publish_of_taken (tracks.isSome_iff.mpr taken), if_pos taken, List.append_nil]
    exact tracks
  · rw [publish_of_free (tracks.free taken), if_neg taken]
    exact tracks.fill taken

theorem publish_eq (tracks : store.Tracks claimed writes) (index : UInt32) (value : α) :
    (store.publish index value).2
      = if index ∈ writes.map (·.1) then .error (.slotTaken index) else .ok () := by
  by_cases taken : index ∈ writes.map (·.1)
  · rw [publish_of_taken (tracks.isSome_iff.mpr taken), if_pos taken]
  · rw [publish_of_free (tracks.free taken), if_neg taken]

theorem push_eq (tracks : store.Tracks claimed writes) (value : α) : (store.push value).2
    = if claimed < UInt32.size - 1 then
        if .ofNat claimed ∈ writes.map (·.1) then .error (.slotTaken (.ofNat claimed))
        else .ok (.ofNat claimed)
      else .error .storeFull := by
  have same := tracks.reserved
  by_cases room : claimed < UInt32.size - 1
  · rw [push_of_room (same ▸ room), tracks.reserve.publish_eq, same, if_pos room]
    split <;> rfl
  · rw [push_of_full (same ▸ room), if_neg room]

/-- An operation adds the write that it makes, and claims an index if it does so. -/
theorem perform (tracks : store.Tracks claimed writes) (operation : ChunkOperation α) :
    (store.perform operation).Tracks (claimed + if operation.claims then 1 else 0)
      (writes ++ store.written operation) := by
  cases operation with
  | reserve =>
    rw [written, List.append_nil]
    exact tracks.reserve
  | publish index value =>
    have now := tracks.publish index value
    rw [ChunkStore.perform, written, tracks.publish_eq]
    by_cases taken : index ∈ writes.map (·.1)
    · rw [if_pos taken] at now ⊢
      exact now
    · rw [if_neg taken] at now ⊢
      exact now
  | push value =>
    have same := tracks.reserved
    rw [ChunkStore.perform, written, tracks.push_eq]
    by_cases room : claimed < UInt32.size - 1
    · have now := tracks.reserve.publish (.ofNat claimed) value
      rw [push_of_room (same ▸ room), if_pos room, same]
      rw [same] at now
      by_cases taken : .ofNat claimed ∈ writes.map (·.1)
      · rw [if_pos taken] at now ⊢
        exact now
      · rw [if_neg taken] at now ⊢
        exact now
    · rw [push_of_full (same ▸ room), if_neg room, List.append_nil]
      exact tracks.reserve

/-- What a run adds to the writes and the claims before it. -/
theorem run (tracks : store.Tracks claimed writes) (operations : List (ChunkOperation α)) :
    (store.run operations).Tracks (claimed + operations.countP (·.claims))
      (writes ++ store.writes operations) := by
  induction operations generalizing store claimed writes with
  | nil =>
    rw [ChunkStore.writes, List.append_nil]
    exact tracks
  | cons operation rest ih =>
    have later := ih (tracks.perform operation)
    rw [ChunkStore.writes, ← List.append_assoc, List.countP_cons, Nat.add_comm (rest.countP _),
      ← Nat.add_assoc]
    exact later

end Tracks

/-- The slots are those of the chunks that were made. -/
theorem allocatedSlots_eq_sum (store : ChunkStore α) : store.allocatedSlots
    = ∑ chunk ∈ Finset.range chunkCount with store.hasChunk chunk, chunkSize chunk := by
  have each : ∀ chunk : Fin store.chunks.toList.length,
      (store.chunks.toList[chunk.val]).elim 0 Array.size
        = if store.hasChunk chunk then chunkSize chunk else 0 := by
    intro chunk
    have inside : chunk.val < store.chunks.size := chunk.isLt
    have sizes := store.size_slots chunk
    rw [Array.getElem?_eq_getElem inside] at sizes
    rw [Array.getElem_toList, hasChunk, Array.getElem?_eq_getElem inside]
    cases found : store.chunks[chunk.val] with
    | none => simp
    | some slots => simp [sizes slots (by rw [found])]
  have count : store.chunks.toList.length = chunkCount := store.size_chunks
  rw [Finset.sum_filter, ← count, Finset.sum_range, allocatedSlots, ← Array.foldl_toList,
    ← Finset.sum_congr rfl fun chunk _ => each chunk,
    Fin.sum_univ_fun_getElem store.chunks.toList (Option.elim · 0 Array.size),
    List.sum_eq_foldl, List.foldl_map]

namespace Tracks

variable {store : ChunkStore α} {claimed : Nat} {writes : List (UInt32 × α)}

theorem allocatedSlots_eq (tracks : store.Tracks claimed writes) : store.allocatedSlots
    = ∑ chunk ∈ (writes.map fun write => (locate write.1).1).toFinset, 64 * 2 ^ chunk := by
  have made : (Finset.range chunkCount).filter (fun chunk => store.hasChunk chunk)
      = (writes.map fun write => (locate write.1).1).toFinset := by
    ext chunk
    rw [Finset.mem_filter, Finset.mem_range, List.mem_toFinset, tracks.made, and_iff_right_iff_imp]
    intro member
    obtain ⟨write, _, rfl⟩ := List.mem_map.mp member
    exact locate_fst_lt write.1
  rw [allocatedSlots_eq_sum, made]
  exact Finset.sum_congr rfl fun chunk _ => Nat.shiftLeft_eq 64 chunk

theorem writeOnce (tracks : store.Tracks claimed writes) : store.WriteOnce claimed writes where
  reserve_eq := by rw [ChunkStore.reserve, tracks.reserved]
  push_eq := tracks.push_eq
  get?_eq_some_iff := tracks.slots
  distinct := tracks.distinct
  stays := by
    intro later index value found
    exact ((tracks.run later).slots index value).mpr
      (List.mem_append_left _ ((tracks.slots index value).mp found))
  publish_eq := tracks.publish_eq
  publish_taken := by
    intro index value taken
    rw [publish_of_taken (tracks.isSome_iff.mpr taken)]
  push_taken := by
    intro value taken
    have same := tracks.reserved
    by_cases room : claimed < UInt32.size - 1
    · have full := tracks.reserve.isSome_iff.mpr taken
      rw [same] at full
      rw [push_of_room (same ▸ room), same, publish_of_taken full]
    · rw [push_of_full (same ▸ room), same]
  size_eq := tracks.published
  allocatedSlots_eq := tracks.allocatedSlots_eq

end Tracks

/-- After any operations on an empty store, in whatever order, it answers as a map that is written once
and a counter: it has what the successful writes wrote, which were made at distinct indices and stay; the
next index is the number of claims so far; and its chunks are those of the written indices. -/
theorem run_writeOnce (operations : List (ChunkOperation α)) :
    (empty.run operations).WriteOnce (operations.countP (·.claims)) (empty.writes operations) := by
  have tracks := (tracks_empty (α := α)).run operations
  rw [Nat.zero_add, List.nil_append] at tracks
  exact tracks.writeOnce

end ChunkStore

end WriteBuffer
