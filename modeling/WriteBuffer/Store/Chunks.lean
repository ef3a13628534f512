import WriteBuffer.Failure

/-!
An append-only store of slots that are written once. Slots live in chunks that double in size and
never move: the first holds 64 slots, and a chunk is made when one of its slots is first written.
An index is reserved before it is written, so reserved indices may be written in any order, and an
index that was never reserved may be written too. Every index has a slot of its own (`locate_inj`)
in a chunk that has room for it, so writing an index changes what is read there and nowhere else
(`get?_setSlot`, `get?_publish`).
-/
namespace WriteBuffer

def chunkSize (chunk : Nat) : Nat := 64 <<< chunk

/-- The number of chunks that hold all 32-bit indices. -/
def chunkCount : Nat := 27

/-- The chunk of an index and the offset in it: a chunk starts 64 below the number of its slots. -/
def locate (index : UInt32) : Nat × Nat :=
  let biased := index.toNat + 64
  let chunk := biased.log2 - 6
  (chunk, biased - chunkSize chunk)

theorem chunkSize_locate (index : UInt32) :
    chunkSize (locate index).1 ≤ index.toNat + 64
      ∧ index.toNat + 64 < 2 * chunkSize (locate index).1 := by
  have six : 6 ≤ (index.toNat + 64).log2 := (Nat.le_log2 (by omega)).mpr (by omega)
  have power : chunkSize (locate index).1 = 2 ^ (index.toNat + 64).log2 := by
    have parts := Nat.pow_add 2 6 ((index.toNat + 64).log2 - 6)
    rw [Nat.add_sub_cancel' six] at parts
    simp only [chunkSize, locate, Nat.shiftLeft_eq]
    exact parts.symm
  have start := Nat.log2_self_le (n := index.toNat + 64) (by omega)
  have stop := Nat.lt_log2_self (n := index.toNat + 64)
  rw [Nat.pow_succ] at stop
  omega

theorem toNat_eq_locate (index : UInt32) :
    index.toNat + 64 = chunkSize (locate index).1 + (locate index).2 := by
  have := (chunkSize_locate index).1
  simp only [locate] at this ⊢
  omega

theorem locate_fst_lt (index : UInt32) : (locate index).1 < chunkCount := by
  have bound := index.toNat_lt
  have : (index.toNat + 64).log2 < 33 := (Nat.log2_lt (by omega)).mpr (by omega)
  simp only [locate, chunkCount]
  omega

theorem locate_snd_lt (index : UInt32) : (locate index).2 < chunkSize (locate index).1 := by
  have := chunkSize_locate index
  have := toNat_eq_locate index
  omega

/-- No two indices share a slot. -/
theorem locate_inj {a b : UInt32} (same : locate a = locate b) : a = b := by
  have ha := toNat_eq_locate a
  have hb := toNat_eq_locate b
  rw [same] at ha
  exact UInt32.toNat_inj.mp (by omega)

/-- The index of a node that other nodes link to. -/
abbrev NodeId := UInt32

/-- Slots that are written once, with the number of reserved indices and of written slots. -/
structure ChunkStore (α : Type) where
  chunks : Array (Option (Array (Option α)))
  reserved : Nat
  published : Nat
  size_chunks : chunks.size = chunkCount
  size_slots : ∀ (chunk : Nat) (slots : Array (Option α)),
    chunks[chunk]? = some (some slots) → slots.size = chunkSize chunk

namespace ChunkStore

variable {α : Type}

/-- A store without chunks. -/
def empty : ChunkStore α where
  chunks := Array.replicate chunkCount none
  reserved := 0
  published := 0
  size_chunks := by simp
  size_slots := by simp [Array.getElem?_replicate]

/-- What a slot of a chunk holds; a chunk that is not made yet holds nothing. -/
def slot (chunk? : Option (Array (Option α))) (offset : Nat) : Option α :=
  chunk?.bind fun slots => (slots[offset]?).join

/-- A chunk of the given size with one of its slots filled, made of empty slots if there was
none. -/
def fill (size offset : Nat) (value : α) (chunk? : Option (Array (Option α))) :
    Option (Array (Option α)) :=
  some ((chunk?.getD (Array.replicate size none)).setIfInBounds offset (some value))

theorem slot_fill {size offset : Nat} (other : Nat) (value : α)
    {chunk? : Option (Array (Option α))} (sizes : ∀ slots, chunk? = some slots → slots.size = size)
    (room : offset < size) :
    slot (fill size offset value chunk?) other
      = if other = offset then some value else slot chunk? other := by
  cases chunk? with
  | none =>
    simp only [slot, fill, Option.bind_some, Option.getD_none, Option.bind_none,
      Array.getElem?_setIfInBounds, Array.getElem?_replicate, Array.size_replicate]
    split
    · next same => simp [← same]
    · next different => split <;> simp [Ne.symm different]
  | some slots =>
    simp only [slot, fill, Option.bind_some, Option.getD_some, Array.getElem?_setIfInBounds]
    split
    · next same => simp [← same, sizes slots rfl, room]
    · next different => simp [Ne.symm different]

def get? (store : ChunkStore α) (index : UInt32) : Option α :=
  let (chunk, offset) := locate index
  slot (store.chunks[chunk]?).join offset

/-- Reserves the next index. The count of reservations grows even when no index is left. -/
def reserve (store : ChunkStore α) : Outcome (ChunkStore α) UInt32 :=
  let index := store.reserved
  ({ store with reserved := index + 1 },
    if index < UInt32.size - 1 then .ok (UInt32.ofNat index) else .error .storeFull)

/-- Replaces what stands in a slot, making its chunk if there is none. -/
def setSlot (store : ChunkStore α) (index : UInt32) (value : α) : ChunkStore α where
  chunks := store.chunks.modify (locate index).1
    (fill (chunkSize (locate index).1) (locate index).2 value)
  reserved := store.reserved
  published := store.published
  size_chunks := by simp [store.size_chunks]
  size_slots := by
    intro chunk slots found
    rw [Array.getElem?_modify] at found
    have sizes := store.size_slots chunk
    split at found
    · next same =>
      cases before : store.chunks[chunk]? with
      | none => simp [before] at found
      | some slots? =>
        cases slots? <;> grind [fill]
    · exact sizes slots found

@[simp] theorem get?_setSlot (store : ChunkStore α) (index other : UInt32) (value : α) :
    (store.setSlot index value).get? other
      = if other = index then some value else store.get? other := by
  have inside : (locate index).1 < store.chunks.size := store.size_chunks ▸ locate_fst_lt index
  simp only [get?, setSlot, Array.getElem?_modify]
  by_cases chunk : (locate index).1 = (locate other).1
  · have sizes := store.size_slots (locate index).1
    rw [Array.getElem?_eq_getElem inside] at sizes
    have offset : (locate other).2 = (locate index).2 ↔ other = index :=
      ⟨fun offset => locate_inj (Prod.ext chunk.symm offset), fun same => same ▸ rfl⟩
    rw [if_pos chunk, ← chunk, Array.getElem?_eq_getElem inside, Option.map_some, Option.join_some,
      Option.join_some, slot_fill _ _ (fun slots found => sizes slots (by rw [found]))
      (locate_snd_lt index)]
    simp only [offset]
  · rw [if_neg chunk, if_neg fun same : other = index => chunk (same ▸ rfl)]

/-- Writes a slot that holds nothing yet. -/
def publish (store : ChunkStore α) (index : UInt32) (value : α) : Outcome (ChunkStore α) Unit :=
  if (store.get? index).isSome then (store, .error (.slotTaken index))
  else
    let written := store.published + 1
    ({ store.setSlot index value with published := written }, .ok ())

theorem get?_publish {store : ChunkStore α} {index : UInt32} (free : store.get? index = none)
    (value : α) (other : UInt32) :
    (store.publish index value).1.get? other
      = if other = index then some value else store.get? other := by
  simp only [publish, free]
  exact get?_setSlot store index other value

/-- Reserves the next index and writes there; the index stays reserved even if its slot was
taken. -/
def push (store : ChunkStore α) (value : α) : Outcome (ChunkStore α) UInt32 :=
  match store.reserve with
  | (store, .error failure) => (store, .error failure)
  | (store, .ok index) =>
    let (store, published) := store.publish index value
    (store, published.map fun _ => index)

/-- Changes the value in a written slot. -/
def update (store : ChunkStore α) (index : UInt32) (change : α → α) : ChunkStore α :=
  match store.get? index with
  | some value => store.setSlot index (change value)
  | none => store

def size (store : ChunkStore α) : Nat := store.published

/-- The number of slots in the chunks made so far. -/
def allocatedSlots (store : ChunkStore α) : Nat :=
  store.chunks.foldl (fun count slots? => count + slots?.elim 0 Array.size) 0

end ChunkStore

end WriteBuffer
