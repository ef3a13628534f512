import Mathlib
import WriteBuffer.Proofs.EntryOrder
import WriteBuffer.Proofs.Table.Displacement

/-!
Slots that hold the latest version of each user key. Each user key has one of its own slots, or the
one spare place beside them (`Housed`). An entry that takes the end of a chain of moves replaces the
version of its user key that was at the other end, if there was one, and all other user keys keep
their entries (`Housed.moved`).
-/
namespace WriteBuffer

/-- The last of some entries that has a user key. -/
def latest (userKey : Bytes) (entries : List Bytes) : Option Bytes :=
  entries.reverse.find? fun entry => decide (entryUserKey entry = .ok userKey)

theorem latest_append (userKey entry : Bytes) (entries : List Bytes) :
    latest userKey (entries ++ [entry])
      = if entryUserKey entry = .ok userKey then some entry else latest userKey entries := by
  simp only [latest, List.reverse_append, List.reverse_singleton, List.singleton_append,
    List.find?_cons]
  by_cases same : entryUserKey entry = .ok userKey <;> simp [same]

/-- The slots, and the one spare place, hold exactly the latest versions of the user keys of some
entries, each user key once and in a slot that it may have. -/
structure Housed (places : Bytes → List Nat) (slots : Nat → Option Bytes) (spare : Option Bytes)
    (taken : List Bytes) : Prop where
  own : ∀ {slot entry}, slots slot = some entry →
    ∃ userKey, entryUserKey entry = .ok userKey ∧ slot ∈ places userKey
  named : ∀ {entry}, spare = some entry → ∃ userKey, entryUserKey entry = .ok userKey
  once : ∀ {a b x y}, slots a = some x → slots b = some y → entryUserKey x = entryUserKey y → a = b
  apart : ∀ {slot x y}, slots slot = some x → spare = some y → entryUserKey x ≠ entryUserKey y
  latest : ∀ {userKey entry}, latest userKey taken = some entry ↔
    entryUserKey entry = .ok userKey ∧ ((∃ slot, slots slot = some entry) ∨ spare = some entry)

/-- The occupant of a slot may also have another one. -/
def MayHave (places : Bytes → List Nat) (slots : Nat → Option Bytes) (source target : Nat) : Prop :=
  ∃ entry userKey, slots source = some entry ∧ entryUserKey entry = .ok userKey ∧
    target ∈ places userKey

namespace Housed

variable {places : Bytes → List Nat} {slots : Nat → Option Bytes} {spare : Option Bytes}
  {taken : List Bytes} {entry userKey : Bytes}

theorem empty : Housed places (fun _ => none) none [] where
  own := nofun
  named := nofun
  once := nofun
  apart := nofun
  latest := by simp [WriteBuffer.latest]

/-- An entry of a user key that no slot has goes to the spare place. -/
theorem spilled (housed : Housed places slots none taken) (user : entryUserKey entry = .ok userKey)
    (homeless : ∀ slot other, slots slot = some other → entryUserKey other ≠ .ok userKey) :
    Housed places slots (some entry) (taken ++ [entry]) where
  own := housed.own
  named := fun same => Option.some.inj same ▸ ⟨userKey, user⟩
  once := housed.once
  apart := by
    intro slot x y found same
    obtain rfl := Option.some.inj same
    rw [user]
    exact homeless slot x found
  latest := by
    intro other found
    rw [latest_append, user]
    by_cases same : userKey = other
    · subst same
      simp only [if_true, Option.some.injEq]
      constructor
      · rintro rfl
        exact ⟨user, .inr rfl⟩
      · rintro ⟨cut, ⟨slot, inSlot⟩ | spare⟩
        · exact absurd cut (homeless slot found inSlot)
        · exact spare
    · rw [if_neg (by simpa using same), housed.latest]
      refine and_congr_right fun cut => or_congr_right ⟨nofun, fun equal => ?_⟩
      rw [Option.some.inj equal] at user
      exact absurd (Except.ok.inj (user.symm.trans cut)) same

/-- An entry takes the end of a chain of moves. No slot but the target of the chain may have held an
entry of its user key, and the target no other. -/
theorem moved (housed : Housed places slots none taken) (user : entryUserKey entry = .ok userKey)
    {path : List Nat} {target : Nat} (distinct : (target :: path).Nodup)
    (chain : Chain (MayHave places slots) (places userKey) path target)
    (vacated : ∀ other, slots target = some other → entryUserKey other = .ok userKey)
    (homeless : ∀ slot other, slot ≠ target → slots slot = some other →
      entryUserKey other ≠ .ok userKey) :
    Housed places (fun slot => match origin path target slot with
        | none => some entry
        | some source => slots source) none (taken ++ [entry]) where
  own := by
    intro slot other found
    split at found
    · next new =>
      obtain rfl := Option.some.inj found
      exact ⟨userKey, user, chain.mem_starts new⟩
    · next source moved =>
      rcases chain.moved moved with rfl | ⟨occupant, key, there, cut, allowed⟩
      · exact housed.own found
      · obtain rfl := Option.some.inj (there.symm.trans found)
        exact ⟨key, cut, allowed⟩
  named := nofun
  once := by
    intro a b x y foundX foundY same
    have stays : ∀ {slot source other}, origin path target slot = some source →
        slots source = some other → entryUserKey other ≠ .ok userKey := fun moved found =>
      homeless _ _ (fun equal => origin_ne_target distinct (equal ▸ moved)) found
    refine origin_injective distinct ?_
    cases fromA : origin path target a with
    | none =>
      rw [fromA] at foundX
      obtain rfl := Option.some.inj foundX
      cases fromB : origin path target b with
      | none => rfl
      | some source =>
        rw [fromB] at foundY
        exact absurd (same.symm.trans user) (stays fromB foundY)
    | some sourceA =>
      rw [fromA] at foundX
      cases fromB : origin path target b with
      | none =>
        rw [fromB] at foundY
        obtain rfl := Option.some.inj foundY
        exact absurd (same.trans user) (stays fromA foundX)
      | some sourceB =>
        rw [fromB] at foundY
        rw [housed.once foundX foundY same]
  apart := nofun
  latest := by
    intro other found
    obtain ⟨⟨home, new⟩, kept⟩ := origin_surjective distinct
    rw [latest_append, user]
    by_cases same : userKey = other
    · subst same
      simp only [if_true, Option.some.injEq, reduceCtorEq, or_false]
      constructor
      · rintro rfl
        exact ⟨user, home, by rw [new]⟩
      · rintro ⟨cut, slot, inSlot⟩
        split at inSlot
        · exact Option.some.inj inSlot
        · next source moved =>
          have differs : source ≠ target := fun equal =>
            origin_ne_target distinct (equal ▸ moved)
          exact absurd cut (homeless source found differs inSlot)
    · rw [if_neg (by simpa using same), housed.latest]
      simp only [reduceCtorEq, or_false]
      refine and_congr_right fun cut => ⟨?_, ?_⟩
      · rintro ⟨slot, inSlot⟩
        have differs : slot ≠ target := by
          rintro rfl
          exact same (Except.ok.inj ((vacated found inSlot).symm.trans cut))
        obtain ⟨now, moved⟩ := kept slot differs
        exact ⟨now, by rw [moved]; exact inSlot⟩
      · rintro ⟨slot, inSlot⟩
        split at inSlot
        · rw [← Option.some.inj inSlot, user] at cut
          exact absurd (Except.ok.inj cut) same
        · next source _ => exact ⟨source, inSlot⟩

/-- An entry of a user key that no slot has takes the end of a chain of moves into an empty slot. -/
theorem filled (housed : Housed places slots none taken) (user : entryUserKey entry = .ok userKey)
    {path : List Nat} {target : Nat} (distinct : (target :: path).Nodup)
    (chain : Chain (MayHave places slots) (places userKey) path target)
    (empty : slots target = none)
    (homeless : ∀ slot other, slots slot = some other → entryUserKey other ≠ .ok userKey) :
    Housed places (fun slot => match origin path target slot with
        | none => some entry
        | some source => slots source) none (taken ++ [entry]) := by
  refine housed.moved user distinct chain ?_ fun slot other _ => homeless slot other
  intro other full
  cases empty.symm.trans full

end Housed

end WriteBuffer
