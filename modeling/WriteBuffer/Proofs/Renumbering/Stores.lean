import Mathlib
import WriteBuffer.Proofs.Cursor.Bisimulation
import WriteBuffer.Proofs.Room
import WriteBuffer.Proofs.WriteOnce

/-!
Handles under other numbers. When an arena is asked for a draft that is never published, later drafts
have greater handles and nothing else changes (`Arena.Renumbered`): what is handed out and published
corresponds (`Arena.Renumbered.allocate`, `Arena.Renumbered.publish`), and so does what is read and
compared (`Shelf.Renumbered.compareEntry`, `Shelf.Renumbered.compareKey`).
-/
namespace WriteBuffer

theorem Handle.eq_of_toNat {a b : Handle} (same : a.index.toNat = b.index.toNat) : a = b :=
  congrArg Handle.mk (UInt32.toNat_inj.mp same)

/-- Other numbers for handles: those from `first` on are raised by `count`, as far as they go, and no
two handles get the same number. -/
structure Renumbering where
  number : Handle → Handle
  first : Nat
  count : Nat
  injective : Function.Injective number
  early : ∀ handle : Handle, handle.index.toNat < first → number handle = handle
  late : ∀ n, first ≤ n → n + count < UInt32.size - 1 → number ⟨.ofNat n⟩ = ⟨.ofNat (n + count)⟩

namespace Renumbering

/-- All handles keep their numbers. -/
def keeping (first : Nat) : Renumbering where
  number := id
  first
  count := 0
  injective := Function.injective_id
  early _ _ := rfl
  late _ _ _ := rfl

/-- A handle raised by one if it is not below a bound; the last of all takes the number that gets
free. -/
def raise (first : Nat) (handle : Handle) : Handle :=
  if handle.index.toNat < first then handle
  else if handle = .nowhere then ⟨.ofNat first⟩
  else ⟨handle.index + 1⟩

theorem toNat_raise (first : Nat) (handle : Handle) : (raise first handle).index.toNat
    = if handle.index.toNat < first then handle.index.toNat
      else if handle.index.toNat = UInt32.size - 1 then first else handle.index.toNat + 1 := by
  have bound := handle.index.toNat_lt
  have last : handle = .nowhere ↔ handle.index.toNat = UInt32.size - 1 := by
    refine ⟨fun same => by rw [same]; rfl, fun same => Handle.eq_of_toNat same⟩
  simp only [raise]
  split
  · rfl
  · simp only [last]
    split
    · exact Nat.mod_eq_of_lt (by omega)
    · have one : (1 : UInt32).toNat = 1 := rfl
      rw [UInt32.toNat_add, one]
      exact Nat.mod_eq_of_lt (by simp only [UInt32.size] at *; omega)

theorem raise_injective (first : Nat) : Function.Injective (raise first) := by
  intro a b same
  have numbers := congrArg (fun handle : Handle => handle.index.toNat) same
  simp only [toNat_raise, UInt32.size] at numbers
  have boundA := a.index.toNat_lt
  have boundB := b.index.toNat_lt
  refine Handle.eq_of_toNat ?_
  grind

theorem raise_late {first n : Nat} (high : first ≤ n) (low : n + 1 < UInt32.size - 1) :
    raise first ⟨.ofNat n⟩ = ⟨.ofNat (n + 1)⟩ := by
  have toNat : ∀ {n}, n < UInt32.size → (UInt32.ofNat n).toNat = n := Nat.mod_eq_of_lt
  refine Handle.eq_of_toNat ?_
  rw [toNat_raise, toNat (by omega), toNat (by omega), if_neg (by omega), if_neg (by omega)]

/-- Handles from `first` on are raised by one. -/
def skipping (first : Nat) : Renumbering where
  number := raise first
  first
  count := 1
  injective := raise_injective first
  early _ low := if_pos low
  late _ := raise_late

end Renumbering

/-- A draft under the other number, if it is of the arena that is renumbered. -/
def Draft.renumber (renumbering : Renumbering) (arena : Nat) (draft : Draft) : Draft :=
  if draft.arena = arena then { draft with handle := renumbering.number draft.handle } else draft

@[simp] theorem Draft.renumber_bytes (renumbering : Renumbering) (arena : Nat) (draft : Draft) :
    (draft.renumber renumbering arena).bytes = draft.bytes := by
  simp only [renumber]
  split <;> rfl

theorem Draft.refill_renumber (renumbering : Renumbering) (arena : Nat) (draft : Draft)
    (bytes : Bytes) : { draft.renumber renumbering arena with bytes }
      = Draft.renumber renumbering arena { draft with bytes } := by
  simp only [renumber]
  split <;> rfl

theorem Draft.renumber_handle {arena : Nat} {draft : Draft} (own : draft.arena = arena)
    (renumbering : Renumbering) :
    (draft.renumber renumbering arena).handle = renumbering.number draft.handle := by
  rw [renumber, if_pos own]

theorem Draft.renumber_foreign {arena : Nat} {draft : Draft} (foreign : draft.arena ≠ arena)
    (renumbering : Renumbering) : draft.renumber renumbering arena = draft :=
  if_neg foreign

namespace Arena

variable {renumbering : Renumbering} {a b : Arena} {draft : Draft} {handle : Handle}

/-- Whether an entry was published under a handle. -/
def Has (arena : Arena) (handle : Handle) : Prop := ∃ entry, arena.get handle = .ok entry

/-- An arena has the entries of another one under other numbers. -/
structure Renumbered (renumbering : Renumbering) (a b : Arena) : Prop where
  id : b.id = a.id
  size : b.size = a.size
  reserved : b.entries.reserved = a.entries.reserved + renumbering.count
  first : renumbering.first ≤ a.entries.reserved
  entries : ∀ handle : Handle,
    b.entries.get? (renumbering.number handle).index = a.entries.get? handle.index

theorem arena_of_allocate {length : Nat} (handedOut : (a.allocate length).2 = .ok draft) :
    draft.arena = a.id := by
  obtain ⟨_, _, rfl⟩ := allocate_ok_iff.mp handedOut
  rfl

theorem free_allocated (packed : a.entries.Packed) {length : Nat}
    (handedOut : (a.allocate length).2 = .ok draft) :
    a.entries.get? draft.handle.index = none := by
  obtain ⟨few, _, rfl⟩ := allocate_ok_iff.mp handedOut
  have index : (UInt32.ofNat a.entries.reserved).toNat = a.entries.reserved :=
    Nat.mod_eq_of_lt (Nat.lt_of_lt_of_le few (Nat.sub_le ..))
  by_contra taken
  have below : (UInt32.ofNat a.entries.reserved).toNat < a.entries.reserved :=
    packed _ (Option.isSome_iff_ne_none.mpr taken)
  omega

theorem Has.low (packed : a.entries.Packed) (has : a.Has handle) :
    handle.index.toNat < a.entries.reserved := by
  obtain ⟨entry, found⟩ := has
  exact packed _ (by rw [(get_eq_ok_iff a handle entry).mp found]; rfl)

theorem renumbered_keeping (arena : Arena) : arena.Renumbered (.keeping 0) arena :=
  ⟨rfl, rfl, rfl, Nat.zero_le _, fun _ => rfl⟩

/-- Later handles are raised by one once a draft was handed out. -/
theorem renumbered_skipping (packed : a.entries.Packed) (length : Nat) :
    a.Renumbered (.skipping a.entries.reserved) (a.allocate length).1 := by
  refine ⟨rfl, rfl, rfl, le_rfl, fun handle => ?_⟩
  have raised := Renumbering.toNat_raise a.entries.reserved handle
  have bound := handle.index.toNat_lt
  by_cases low : handle.index.toNat < a.entries.reserved
  · rw [(Renumbering.skipping _).early handle low]
    rfl
  · have unpublished : ∀ index : UInt32, a.entries.reserved ≤ index.toNat →
        a.entries.get? index = none := fun index high => by
      by_contra taken
      exact absurd (packed index (Option.isSome_iff_ne_none.mpr taken)) (Nat.not_lt.mpr high)
    refine (unpublished _ ?_).trans (unpublished _ (Nat.not_lt.mp low)).symm
    rw [if_neg low] at raised
    simp only [Renumbering.skipping]
    split at raised <;> omega

namespace Renumbered

theorem get (renumbered : a.Renumbered renumbering b) (has : a.Has handle) :
    b.get (renumbering.number handle) = a.get handle := by
  obtain ⟨entry, found⟩ := has
  have stored := (Arena.get_eq_ok_iff a handle entry).mp found
  rw [found, Arena.get_eq_ok_iff, renumbered.entries, stored]

theorem allocated (renumbered : a.Renumbered renumbering b) (length : Nat) :
    (a.allocate length).1.Renumbered renumbering (b.allocate length).1 where
  id := renumbered.id
  size := renumbered.size
  reserved := by
    have := renumbered.reserved
    simp only [allocate, ChunkStore.reserve]
    omega
  first := Nat.le_succ_of_le renumbered.first
  entries := renumbered.entries

/-- The draft that is handed out has the other number, as long as there are handles left, and if none
are skipped even then. -/
theorem allocate (renumbered : a.Renumbered renumbering b)
    (handles : renumbering.count = 0 ∨ b.entries.reserved < UInt32.size - 1) (length : Nat) :
    (b.allocate length).2 = (a.allocate length).2.map (Draft.renumber renumbering a.id) := by
  have reserved := renumbered.reserved
  by_cases lasts : b.entries.reserved < UInt32.size - 1
  · have late := renumbering.late a.entries.reserved renumbered.first (reserved ▸ lasts)
    simp only [Arena.allocate, ChunkStore.reserve, lasts, if_true, renumbered.id,
      show a.entries.reserved < UInt32.size - 1 by omega, bind, Except.bind, pure, Except.pure]
    cases zeroedBuffer length with
    | error failure => rfl
    | ok bytes => simp only [Except.map, Draft.renumber, if_true, late, reserved]
  · simp only [Arena.allocate, ChunkStore.reserve, lasts, if_false, bind, Except.bind,
      show ¬ a.entries.reserved < UInt32.size - 1 by omega]
    rfl

/-- A draft of the arena can be published under the other number if nothing was published under its
own, and a draft of another arena cannot be published. -/
theorem publish (renumbered : a.Renumbered renumbering b)
    (free : draft.arena = a.id → a.entries.get? draft.handle.index = none) :
    Both (Renumbered renumbering) (a.publish draft)
      (b.publish (draft.renumber renumbering a.id)) := by
  by_cases own : draft.arena = a.id
  · have freeA := free own
    have freeB := (renumbered.entries draft.handle).trans freeA
    have size := renumbered.size
    simp only [Draft.renumber, own, if_true, Arena.publish, renumbered.id, ne_eq, not_true_eq_false,
      if_false, ChunkStore.publish_of_free freeA, ChunkStore.publish_of_free freeB]
    refine ⟨rfl, congrArg (· + 1) size, renumbered.reserved, renumbered.first,
      fun handle => ?_⟩
    have same : (renumbering.number handle).index = (renumbering.number draft.handle).index
        ↔ handle.index = draft.handle.index := by
      refine ⟨fun same => ?_, fun same => ?_⟩
      · exact congrArg Handle.index (renumbering.injective (congrArg Handle.mk same))
      · rw [show handle = draft.handle from congrArg Handle.mk same]
    have slotsA := ChunkStore.get?_setSlot a.entries draft.handle.index handle.index draft.bytes
    have slotsB := ChunkStore.get?_setSlot b.entries (renumbering.number draft.handle).index
      (renumbering.number handle).index draft.bytes
    simp only [same, renumbered.entries] at slotsB
    exact slotsB.trans slotsA.symm
  · simp only [Draft.renumber, own, if_false, Arena.publish, renumbered.id, ne_eq, not_false_eq_true,
      if_true]
    exact rfl

end Renumbered

end Arena

namespace Shelf

variable {renumbering : Renumbering} {a b : Shelf} {handle other : Handle}

/-- A shelf has the entries of another one under other numbers and in the same order. -/
structure Renumbered (renumbering : Renumbering) (a b : Shelf) : Prop where
  order : b.order = a.order
  arena : a.arena.Renumbered renumbering b.arena

namespace Renumbered

theorem compareEntry (renumbered : a.Renumbered renumbering b) (has : a.arena.Has handle)
    (entry : Bytes) :
    b.compareEntry (renumbering.number handle) entry = a.compareEntry handle entry := by
  simp only [Shelf.compareEntry, renumbered.arena.get has, renumbered.order]

theorem compareKey (renumbered : a.Renumbered renumbering b) (has : a.arena.Has handle)
    (internalKey : Bytes) :
    b.compareKey (renumbering.number handle) internalKey = a.compareKey handle internalKey := by
  simp only [Shelf.compareKey, renumbered.arena.get has, renumbered.order]

theorem compareHandles (renumbered : a.Renumbered renumbering b) (has : a.arena.Has handle)
    (hasOther : a.arena.Has other) :
    b.compareHandles (renumbering.number handle) (renumbering.number other)
      = a.compareHandles handle other := by
  simp only [Shelf.compareHandles, renumbered.arena.get hasOther, renumbered.compareEntry has]

theorem isBelowEntry (renumbered : a.Renumbered renumbering b) (has : a.arena.Has handle)
    (entry : Bytes) :
    b.isBelowEntry entry (renumbering.number handle) = a.isBelowEntry entry handle := by
  simp only [Shelf.isBelowEntry, renumbered.compareEntry has]

theorem isBelowKey (renumbered : a.Renumbered renumbering b) (has : a.arena.Has handle)
    (internalKey : Bytes) :
    b.isBelowKey internalKey (renumbering.number handle) = a.isBelowKey internalKey handle := by
  simp only [Shelf.isBelowKey, renumbered.compareKey has]

end Renumbered

end Shelf

namespace ChunkStore

variable {α : Type} {f : α → α} {a b : ChunkStore α}

/-- A store holds in every slot what another one does, changed by a function. -/
structure Mapped (f : α → α) (a b : ChunkStore α) : Prop where
  reserved : b.reserved = a.reserved
  size : b.size = a.size
  slots : ∀ index, b.get? index = (a.get? index).map f

namespace Mapped

theorem publish (mapped : a.Mapped f b) (index : UInt32) (value : α) :
    (b.publish index (f value)).2 = (a.publish index value).2 ∧
      (a.publish index value).1.Mapped f (b.publish index (f value)).1 := by
  have same := mapped.slots index
  cases before : a.get? index with
  | some old =>
    rw [before] at same
    have takenA : (a.get? index).isSome := by rw [before]; rfl
    have takenB : (b.get? index).isSome := by rw [same]; rfl
    rw [publish_of_taken takenA, publish_of_taken takenB]
    exact ⟨rfl, mapped⟩
  | none =>
    rw [before] at same
    rw [publish_of_free before, publish_of_free same]
    refine ⟨rfl, mapped.reserved, congrArg (· + 1) mapped.size, fun other => ?_⟩
    have slotsA := get?_setSlot a index other value
    have slotsB := get?_setSlot b index other (f value)
    rw [mapped.slots] at slotsB
    refine slotsB.trans ((?_ : _ = _).trans (congrArg (Option.map f) slotsA.symm))
    split <;> rfl

theorem push (mapped : a.Mapped f b) (value : α) :
    (b.push (f value)).2 = (a.push value).2 ∧ (a.push value).1.Mapped f (b.push (f value)).1 := by
  have reserved := mapped.reserved
  have next : Mapped f { a with reserved := a.reserved + 1 } { b with reserved := a.reserved + 1 } :=
    ⟨rfl, mapped.size, mapped.slots⟩
  by_cases room : a.reserved < UInt32.size - 1
  · rw [push_of_room room, push_of_room (reserved ▸ room), reserved]
    obtain ⟨answer, now⟩ := next.publish (.ofNat a.reserved) value
    exact ⟨congrArg (Except.map fun _ => UInt32.ofNat a.reserved) answer, now⟩
  · rw [push_of_full room, push_of_full (reserved ▸ room), reserved]
    exact ⟨rfl, next⟩

theorem update (mapped : a.Mapped f b) (index : UInt32) {change : α → α}
    (commutes : ∀ value, change (f value) = f (change value)) :
    (a.update index change).Mapped f (b.update index change) where
  reserved := by rw [reserved_update, reserved_update, mapped.reserved]
  size := by rw [size_update, size_update, mapped.size]
  slots other := by
    rw [get?_update, get?_update, mapped.slots, mapped.slots]
    split <;> simp [Function.comp_def, commutes]

end Mapped

end ChunkStore

end WriteBuffer
