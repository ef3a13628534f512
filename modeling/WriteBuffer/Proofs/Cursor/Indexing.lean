import Mathlib
import WriteBuffer.Proofs.Cursor.Following
import WriteBuffer.Proofs.VersionedOrder
import WriteBuffer.Session.Cursors

/-!
Sessions with cursors that follow sorted entries. An index that moves over the list of the entries
(`Moves.indexing`) is itself a cursor, and the plainest one. Each step of a cursor that follows the
list is a step of the index (`Moves.Follows.move_eq`, `Moves.Follows.execute_eq`), so it answers every
session as the index does, failures included, and no failure moves it (`Moves.Follows.agrees`).
-/
namespace WriteBuffer

/-- An index, if it is one of a list. -/
def indexIn (entries : List Bytes) (index : Nat) : Option (Fin entries.length) :=
  if within : index < entries.length then some ⟨index, within⟩ else none

namespace Moves

/-- An index that moves over a sorted list. It seeks the first entry that is not below the target,
which fails if there are entries and the target has no tag; stepping off either end of the list leads
to no entry. -/
def indexing (entries : List Bytes) : Moves (Option (Fin entries.length)) where
  valid at? := at?.isSome
  entry at? := atPlace at? fun index => .ok (entries.get index)
  next at? := atPlace at? fun index => .ok (indexIn entries (index.val + 1))
  prev at? := atPlace at? fun index =>
    .ok (if index.val = 0 then none else indexIn entries (index.val - 1))
  seek target _ :=
    if entries = [] ∨ tagSize ≤ target.length then
      .ok (entries.findFinIdx? fun entry =>
        decide (KeyOrder.versioned.compareEntryKey entry target ≠ .ok .lt))
    else .error .outOfRange
  first _ := .ok (indexIn entries 0)
  last _ := .ok (indexIn entries (entries.length - 1))
  span _ := entries.length

variable {ι : Type}

/-- The cursor after the steps of a session, and what each of them answers. -/
def session (moves : Moves ι) : ι → List CursorCommand → ι × List (Except Failure CursorReply)
  | cursor, [] => (cursor, [])
  | cursor, command :: rest =>
    let (arrived, reply) := moves.execute cursor command
    let (stop, replies) := session moves arrived rest
    (stop, reply :: replies)

/-- From a cursor on, every session is answered as by an index that moves over a list and is at no
entry yet, and after every session a step that fails leaves the cursor in place. -/
structure Agrees (moves : Moves ι) (start : ι) (entries : List Bytes) : Prop where
  replies : ∀ commands,
    (moves.session start commands).2 = ((indexing entries).session none commands).2
  stays : ∀ commands command failure,
    let cursor := (moves.session start commands).1
    (moves.execute cursor command).2 = .error failure → (moves.execute cursor command).1 = cursor

variable {moves : Moves ι} {entries front back : List Bytes} {target : Bytes}
  {place : Option Nat → ι}

theorem indexIn_val (entries : List Bytes) (index : Nat) :
    (indexIn entries index).map Fin.val = inside entries index := by
  by_cases within : index < entries.length <;> simp [indexIn, inside, within]

theorem bind_indexIn (at? : Option (Fin entries.length)) :
    (at?.map Fin.val).bind (indexIn entries) = at? := by
  cases at? with
  | none => rfl
  | some index => exact dif_pos index.isLt

theorem indexing_current (at? : Option (Fin entries.length)) :
    (indexing entries).current at? = .ok (at?.map entries.get) := by
  cases at? <;> rfl

theorem findFinIdx?_split (split : KeyOrder.versioned.Splits target front back) :
    ((front ++ back).findFinIdx? fun entry =>
      decide (KeyOrder.versioned.compareEntryKey entry target ≠ .ok .lt)).map Fin.val
      = inside (front ++ back) front.length := by
  have passed : front.findIdx? (fun entry =>
      decide (KeyOrder.versioned.compareEntryKey entry target ≠ .ok .lt)) = none := by
    refine List.findIdx?_eq_none_iff.mpr ?_
    intro entry member
    simp [split.below entry member]
  rw [← List.findIdx?_eq_map_findFinIdx?_val, List.findIdx?_append, passed, Option.none_or]
  cases back with
  | nil => simp [inside]
  | cons first rest =>
    obtain ⟨ordering, answer, notLess⟩ := split.notBelow first List.mem_cons_self
    simp [List.findIdx?_cons, answer, notLess, inside]

/-- An index steps through its list. -/
theorem indexing_steps (entries : List Bytes) :
    (indexing entries).Steps entries fun at? => at?.bind (indexIn entries) where
  invalid := rfl
  valid within := by simp [indexing, indexIn, within]
  entry found := by
    obtain ⟨within, rfl⟩ := List.getElem?_eq_some_iff.mp found
    simp [indexing, indexIn, within, atPlace]
  next := by
    intro index within
    by_cases onward : index + 1 < entries.length <;>
      simp [indexing, indexIn, inside, within, onward, atPlace]
  prev := by
    intro index within
    have here : indexIn entries index = some ⟨index, within⟩ := dif_pos within
    by_cases start : index = 0
    · subst start
      simp [indexing, here, atPlace]
    · simp [indexing, here, start, atPlace]
  span _ := Nat.le_refl _

theorem Steps.walkForward_from (steps : moves.Steps entries place)
    (at? : Option (Fin entries.length)) :
    moves.walkForward (place (at?.map Fin.val))
      = (place none, .ok (at?.elim [] fun index => entries.drop index)) := by
  cases at? with
  | none => exact walk_invalid steps.invalid ..
  | some index =>
    have here : inside entries index.val = some index.val := if_pos index.isLt
    rw [Option.map_some, ← here]
    exact steps.walkForward index

theorem Steps.walkBackward_from (steps : moves.Steps entries place)
    (at? : Option (Fin entries.length)) :
    moves.walkBackward (place (at?.map Fin.val))
      = (place none, .ok (at?.elim [] fun index => (entries.take (index + 1)).reverse)) := by
  cases at? with
  | none => exact walk_invalid steps.invalid ..
  | some index => exact steps.walkBackward index.isLt

theorem indexing_walkForward (at? : Option (Fin entries.length)) :
    (indexing entries).walkForward at?
      = (none, .ok (at?.elim [] fun index => entries.drop index)) := by
  have walked := (indexing_steps entries).walkForward_from at?
  rwa [bind_indexIn] at walked

theorem indexing_walkBackward (at? : Option (Fin entries.length)) :
    (indexing entries).walkBackward at?
      = (none, .ok (at?.elim [] fun index => (entries.take (index + 1)).reverse)) := by
  have walked := (indexing_steps entries).walkBackward_from at?
  rwa [bind_indexIn] at walked

/-- A step of an index that fails leaves it in place. -/
theorem indexing_stays {at? : Option (Fin entries.length)} {command : CursorCommand}
    {failure : Failure} (failed : ((indexing entries).execute at? command).2 = .error failure) :
    ((indexing entries).execute at? command).1 = at? := by
  have onMotion : ∀ motion, ((indexing entries).moveAndShow motion at?).2 = .error failure →
      ((indexing entries).moveAndShow motion at?).1 = at? := by
    intro motion failed
    simp only [moveAndShow] at failed ⊢
    cases moved : (indexing entries).move motion at? with
    | error failure => rfl
    | ok to? => simp [moved, indexing_current, Except.map] at failed
  cases command with
  | move motion => exact onMotion motion failed
  | seekKey key =>
    simp only [execute] at failed ⊢
    cases encoded : key.encode with
    | error failure => rfl
    | ok internalKey =>
      simp only [encoded] at failed
      exact onMotion _ failed
  | valid | entry => rfl
  | walk => simp [execute, indexing_walkForward, Except.map] at failed
  | walkBack => simp [execute, indexing_walkBackward, Except.map] at failed

section Follows

variable (follows : moves.Follows .versioned entries place)
  (at? : Option (Fin entries.length))
include follows

theorem Follows.current_eq :
    moves.current (place (at?.map Fin.val)) = (indexing entries).current at? := by
  cases at? with
  | none => simp [current, follows.invalid, indexing]
  | some index =>
    simp [current, follows.valid index.isLt,
      follows.entry (List.getElem?_eq_getElem index.isLt), indexing, atPlace, Except.map]

section Sorted

variable (readable : ∀ entry ∈ entries, HasKey HasTag entry)
  (sorted : KeyOrder.versioned.Sorted entries)
include readable sorted

/-- A cursor seeks what the index seeks. A target without a tag is not found where there is nothing to
find, and refused where there is something. -/
theorem Follows.seek_eq (target : Bytes) :
    moves.seek target (place (at?.map Fin.val))
      = ((indexing entries).seek target at?).map fun to? => place (to?.map Fin.val) := by
  by_cases tagged : HasTag target
  · obtain ⟨front, back, rfl, split⟩ := KeyOrder.versioned_totalOn.splits tagged readable sorted
    have sought : front ++ back = [] ∨ tagSize ≤ target.length := .inr tagged
    simp only [follows.seek _ rfl split, indexing, if_pos sought, Except.map, findFinIdx?_split split]
  · by_cases empty : entries = []
    · subst empty
      have split : KeyOrder.versioned.Splits target [] [] := ⟨by simp, by simp⟩
      rw [follows.seek _ (List.nil_append []).symm split]
      rfl
    · have closed : ¬ (entries = [] ∨ tagSize ≤ target.length) := fun either =>
        either.elim empty tagged
      have refused : ∀ entry ∈ entries,
          KeyOrder.versioned.compareEntryKey entry target = .error .outOfRange :=
        fun entry member => KeyOrder.compareEntryKey_untagged (readable entry member) tagged
      simp only [follows.refuses _ empty refused, indexing, if_neg closed, Except.map]

/-- A cursor moves as the index does, and fails where the index fails. -/
theorem Follows.move_eq (motion : Motion) :
    moves.move motion (place (at?.map Fin.val))
      = ((indexing entries).move motion at?).map fun to? => place (to?.map Fin.val) := by
  cases motion with
  | first => simp only [move, follows.first, indexing, Except.map, indexIn_val]
  | last => simp only [move, follows.last, indexing, Except.map, indexIn_val]
  | next =>
    cases at? with
    | none => exact follows.stops.1
    | some index =>
      simp only [move, Option.map_some, follows.next index.isLt, indexing, atPlace, Except.map,
        indexIn_val]
  | prev =>
    cases at? with
    | none => exact follows.stops.2
    | some index =>
      have back : (if index.val = 0 then none else indexIn entries (index.val - 1)).map Fin.val
          = if index.val = 0 then none else some (index.val - 1) := by
        have within : index.val - 1 < entries.length := by omega
        by_cases start : index.val = 0 <;> simp [start, indexIn, within]
      simp only [move, Option.map_some, follows.prev index.isLt, indexing, atPlace, Except.map, back]
  | seek target => exact follows.seek_eq at? readable sorted target

theorem Follows.moveAndShow_eq (motion : Motion) :
    moves.moveAndShow motion (place (at?.map Fin.val))
      = (place (((indexing entries).moveAndShow motion at?).1.map Fin.val),
        ((indexing entries).moveAndShow motion at?).2) := by
  simp only [moveAndShow, follows.move_eq at? readable sorted]
  cases (indexing entries).move motion at? with
  | error failure => rfl
  | ok to? => simp only [Except.map, follows.current_eq]

/-- Each step of a session is a step of the index. -/
theorem Follows.execute_eq (command : CursorCommand) :
    moves.execute (place (at?.map Fin.val)) command
      = (place (((indexing entries).execute at? command).1.map Fin.val),
        ((indexing entries).execute at? command).2) := by
  cases command with
  | move motion => exact follows.moveAndShow_eq at? readable sorted motion
  | seekKey key =>
    simp only [execute]
    cases key.encode with
    | error failure => rfl
    | ok internalKey => exact follows.moveAndShow_eq at? readable sorted _
  | valid =>
    cases at? with
    | none => simp [execute, follows.invalid, indexing]
    | some index => simp [execute, follows.valid index.isLt, indexing]
  | entry =>
    cases at? with
    | none => simp [execute, follows.unread, indexing, atPlace]
    | some index =>
      simp [execute, follows.entry (List.getElem?_eq_getElem index.isLt), indexing, atPlace]
  | walk => simp only [execute, follows.walkForward_from, indexing_walkForward, Option.map_none]
  | walkBack => simp only [execute, follows.walkBackward_from, indexing_walkBackward, Option.map_none]

/-- A session is answered step by step as by the index. -/
theorem Follows.session_eq (commands : List CursorCommand) :
    moves.session (place (at?.map Fin.val)) commands
      = (place (((indexing entries).session at? commands).1.map Fin.val),
        ((indexing entries).session at? commands).2) := by
  induction commands generalizing at? with
  | nil => rfl
  | cons command rest ih =>
    simp only [session, follows.execute_eq at? readable sorted command, ih]

end Sorted

end Follows

/-- A cursor that follows sorted entries and is at none of them answers as the index does. -/
theorem Follows.agrees (follows : moves.Follows .versioned entries place)
    (readable : ∀ entry ∈ entries, HasKey HasTag entry)
    (sorted : KeyOrder.versioned.Sorted entries) : moves.Agrees (place none) entries where
  replies commands := congrArg Prod.snd (follows.session_eq none readable sorted commands)
  stays := by
    intro commands command failure cursor failed
    have reached : cursor = place (((indexing entries).session none commands).1.map Fin.val) :=
      congrArg Prod.fst (follows.session_eq none readable sorted commands)
    rw [reached, follows.execute_eq _ readable sorted] at failed ⊢
    rw [indexing_stays failed]

end Moves

end WriteBuffer
