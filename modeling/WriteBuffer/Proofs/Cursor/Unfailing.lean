import Mathlib
import WriteBuffer.Cursor.Prefix
import WriteBuffer.Proofs.Cursor.Halving
import WriteBuffer.Proofs.EntryCodec
import WriteBuffer.Session.Cursors

/-!
Cursors with which nothing goes wrong. What is known of one cursor (`Moves.UnfailingAt`) says how it
reads, that its movements succeed and end in good cursors again, and that walks in both directions
come to an end; moves are unfailing where this is known of all good cursors. Then no step of a session
fails but one from no entry (`Moves.Unfailing.execute`). Cursors that follow a list are unfailing if
they find something for every target (`Moves.Follows.unfailing`), those over a run of handles whether
it is in order or not (`RunCursor.unfailing`), and those within groups if the cursors along the
buckets are (`GroupCursor.unfailing`).
-/
namespace WriteBuffer

namespace Motion

/-- Movements that are open to a cursor at no entry. -/
def Jumps : Motion → Prop
  | next | prev => False
  | seek _ | first | last => True

/-- Movements that are no search for bytes too short to be a key. -/
def Proper : Motion → Prop
  | seek target => HasTag target
  | next | prev | first | last => True

end Motion

/-- Steps of a session with a cursor that seek nothing but keys. -/
def CursorCommand.Proper : CursorCommand → Prop
  | move motion => motion.Proper
  | seekKey key => key.sequence ≤ maxSequence
  | valid | entry | walk | walkBack => True

theorem InternalKey.encode_hasTag {key : InternalKey} {bytes : Bytes}
    (encoded : key.encode = .ok bytes) : HasTag bytes := by
  rw [HasTag, Record.length_encode encoded]
  exact Nat.le_add_left ..

namespace Moves

variable {ι κ : Type} {moves inner : Moves ι} {outer : Moves κ} {wrap : ι → κ}
  {good more : ι → Prop} {cursor : ι}

/-- Repeating a step leads to no entry in at most `bound` steps. -/
def Ends (moves : Moves ι) (step : ι → Except Failure ι) : (bound : Nat) → ι → Prop
  | 0, cursor => moves.valid cursor = false
  | bound + 1, cursor => moves.valid cursor = true →
    ∃ further, step cursor = .ok further ∧ Ends moves step bound further

/-- With a cursor nothing goes wrong, and its movements end in good cursors. -/
structure UnfailingAt (moves : Moves ι) (good : ι → Prop) (cursor : ι) : Prop where
  shows : moves.valid cursor = true →
    ∃ entry, moves.entry cursor = .ok entry ∧ HasKey HasTag entry
  unread : moves.valid cursor = false → moves.entry cursor = .error .unpositioned
  stops : moves.valid cursor = false → moves.Stops cursor
  moved : ∀ motion : Motion, motion.Proper → moves.valid cursor = true ∨ motion.Jumps →
    ∃ arrived, moves.move motion cursor = .ok arrived ∧ good arrived
  forth : moves.Ends moves.next (moves.span cursor) cursor
  back : moves.Ends moves.prev (moves.span cursor) cursor

/-- With no good cursor anything goes wrong. -/
def Unfailing (moves : Moves ι) (good : ι → Prop) : Prop :=
  ∀ cursor, good cursor → moves.UnfailingAt good cursor

theorem Ends.of_invalid (invalid : moves.valid cursor = false) (step : ι → Except Failure ι)
    (bound : Nat) : moves.Ends step bound cursor := by
  cases bound with
  | zero => exact invalid
  | succ bound => exact fun valid => by simp [invalid] at valid

theorem UnfailingAt.mono (unfailing : moves.UnfailingAt good cursor)
    (sub : ∀ cursor, good cursor → more cursor) : moves.UnfailingAt more cursor where
  shows := unfailing.shows
  unread := unfailing.unread
  stops := unfailing.stops
  moved motion proper allowed :=
    (unfailing.moved motion proper allowed).imp fun arrived moved => ⟨moved.1, sub arrived moved.2⟩
  forth := unfailing.forth
  back := unfailing.back

section Sessions

variable (unfailing : moves.Unfailing good)
include unfailing

theorem Unfailing.current (held : good cursor) : ∃ shown, moves.current cursor = .ok shown := by
  simp only [Moves.current]
  cases valid : moves.valid cursor with
  | false => exact ⟨none, rfl⟩
  | true =>
    obtain ⟨entry, read, _⟩ := (unfailing cursor held).shows valid
    exact ⟨some entry, by rw [if_pos rfl, read]; rfl⟩

/-- A walk that comes to an end shows entries. -/
theorem Unfailing.walk {step : ι → Except Failure ι}
    (onward : ∀ {cursor further}, good cursor → moves.valid cursor = true →
      step cursor = .ok further → good further) {bound : Nat} (ends : moves.Ends step bound cursor)
    (held : good cursor) :
    ∃ stop entries, moves.walk step bound cursor = (stop, .ok entries) ∧ good stop := by
  induction bound generalizing cursor with
  | zero => exact ⟨cursor, [], by simp [Moves.walk, show moves.valid cursor = false from ends], held⟩
  | succ bound ih =>
    cases valid : moves.valid cursor with
    | false => exact ⟨cursor, [], by simp [Moves.walk, valid], held⟩
    | true =>
      obtain ⟨entry, read, _⟩ := (unfailing cursor held).shows valid
      obtain ⟨further, stepped, rest⟩ := ends valid
      obtain ⟨stop, entries, walked, last⟩ := ih rest (onward held valid stepped)
      exact ⟨stop, entry :: entries, by simp [Moves.walk, valid, read, stepped, walked, Except.map],
        last⟩

theorem Unfailing.next {further : ι} (held : good cursor) (valid : moves.valid cursor = true)
    (stepped : moves.next cursor = .ok further) : good further := by
  obtain ⟨arrived, moved, arrives⟩ :=
    (unfailing cursor held).moved .next trivial (.inl valid)
  obtain rfl := Except.ok.inj (moved.symm.trans stepped)
  exact arrives

theorem Unfailing.prev {further : ι} (held : good cursor) (valid : moves.valid cursor = true)
    (stepped : moves.prev cursor = .ok further) : good further := by
  obtain ⟨arrived, moved, arrives⟩ :=
    (unfailing cursor held).moved .prev trivial (.inl valid)
  obtain rfl := Except.ok.inj (moved.symm.trans stepped)
  exact arrives

theorem Unfailing.walkForward (held : good cursor) :
    ∃ stop entries, moves.walkForward cursor = (stop, .ok entries) ∧ good stop :=
  unfailing.walk unfailing.next (unfailing cursor held).forth held

theorem Unfailing.walkBackward (held : good cursor) :
    ∃ stop entries, moves.walkBackward cursor = (stop, .ok entries) ∧ good stop :=
  unfailing.walk unfailing.prev (unfailing cursor held).back held

theorem Unfailing.visit (goesOn : List Bytes → Bool) {bound : Nat} {shown : List Bytes}
    (ends : moves.Ends moves.next bound cursor) (held : good cursor) :
    ∃ all, moves.visit goesOn bound shown cursor = .ok all := by
  induction bound generalizing cursor shown with
  | zero => exact ⟨shown, by simp [Moves.visit, show moves.valid cursor = false from ends]⟩
  | succ bound ih =>
    cases valid : moves.valid cursor with
    | false => exact ⟨shown, by simp [Moves.visit, valid]⟩
    | true =>
      obtain ⟨entry, read, _⟩ := (unfailing cursor held).shows valid
      obtain ⟨further, stepped, rest⟩ := ends valid
      simp only [Moves.visit, valid, if_true, read, stepped, bind, Except.bind]
      split
      · exact ih rest (unfailing.next held valid stepped)
      · exact ⟨_, rfl⟩

theorem Unfailing.visitFrom (held : good cursor) {target : Bytes} (tagged : HasTag target)
    (goesOn : List Bytes → Bool) : ∃ all, moves.visitFrom cursor target goesOn = .ok all := by
  obtain ⟨start, sought, started⟩ :=
    (unfailing cursor held).moved (.seek target) tagged (.inr trivial)
  obtain ⟨all, visited⟩ := unfailing.visit goesOn (unfailing start started).forth started
  refine ⟨all, ?_⟩
  rw [Moves.visitFrom, show moves.seek target cursor = .ok start from sought]
  exact visited

/-- A movement leads to a good cursor and fails only from no entry. -/
theorem Unfailing.moveAndShow (held : good cursor) (motion : Motion) (proper : motion.Proper) :
    good (moves.moveAndShow motion cursor).1 ∧ ∀ failure,
      (moves.moveAndShow motion cursor).2 = .error failure →
        failure = .unpositioned ∧ moves.valid cursor = false := by
  by_cases allowed : moves.valid cursor = true ∨ motion.Jumps
  · obtain ⟨arrived, moved, arrives⟩ := (unfailing cursor held).moved motion proper allowed
    obtain ⟨shown, read⟩ := unfailing.current arrives
    simp only [Moves.moveAndShow, moved, read]
    exact ⟨arrives, fun failure failed => by cases failed⟩
  · obtain ⟨invalid, steps⟩ := not_or.mp allowed
    have invalid : moves.valid cursor = false := Bool.eq_false_iff.mpr invalid
    have stops := (unfailing cursor held).stops invalid
    have stopped : moves.move motion cursor = .error .unpositioned := by
      cases motion with
      | next => exact stops.1
      | prev => exact stops.2
      | seek | first | last => exact absurd trivial steps
    simp only [Moves.moveAndShow, stopped]
    exact ⟨held, fun failure failed => ⟨(Except.error.inj failed).symm, invalid⟩⟩

/-- No step of a session leads away from good cursors, and none fails but one that needs an entry
where there is none. -/
theorem Unfailing.execute (held : good cursor) {command : CursorCommand} (proper : command.Proper) :
    good (moves.execute cursor command).1 ∧ ∀ failure,
      (moves.execute cursor command).2 = .error failure →
        failure = .unpositioned ∧ moves.valid cursor = false := by
  cases command with
  | move motion => exact unfailing.moveAndShow held motion proper
  | seekKey key =>
    obtain ⟨internalKey, encoded⟩ := InternalKey.encode_ok proper
    simp only [Moves.execute, encoded]
    exact unfailing.moveAndShow held (.seek internalKey)
      (InternalKey.encode_hasTag encoded)
  | valid => exact ⟨held, fun failure failed => by cases failed⟩
  | entry =>
    refine ⟨held, ?_⟩
    cases valid : moves.valid cursor with
    | true =>
      obtain ⟨entry, read, _⟩ := (unfailing cursor held).shows valid
      intro failure failed
      simp [Moves.execute, read, Except.map] at failed
    | false =>
      intro failure failed
      exact ⟨by simpa [Moves.execute, (unfailing cursor held).unread valid, Except.map]
        using failed.symm, rfl⟩
  | walk =>
    obtain ⟨stop, entries, walked, last⟩ := unfailing.walkForward held
    simp only [Moves.execute, walked]
    exact ⟨last, fun failure failed => by cases failed⟩
  | walkBack =>
    obtain ⟨stop, entries, walked, last⟩ := unfailing.walkBackward held
    simp only [Moves.execute, walked]
    exact ⟨last, fun failure failed => by cases failed⟩

end Sessions

section Wrapped

theorem Carries.ends_iff (carries : outer.Carries inner wrap) {step : ι → Except Failure ι}
    {wrapped : κ → Except Failure κ}
    (same : ∀ cursor, wrapped (wrap cursor) = (step cursor).map wrap) {bound : Nat} {cursor : ι} :
    outer.Ends wrapped bound (wrap cursor) ↔ inner.Ends step bound cursor := by
  induction bound generalizing cursor with
  | zero => rw [Ends, Ends, carries.valid]
  | succ bound ih =>
    rw [Ends, Ends, carries.valid, same]
    cases step cursor with
    | error failure => simp [Except.map]
    | ok further => simp [Except.map, ih]

/-- Wrapping a cursor does not make it fail. -/
theorem UnfailingAt.carried (unfailing : inner.UnfailingAt good cursor)
    (carries : outer.Carries inner wrap) {wrapped : κ → Prop}
    (sub : ∀ cursor, good cursor → wrapped (wrap cursor)) :
    outer.UnfailingAt wrapped (wrap cursor) where
  shows := by
    rw [carries.valid, carries.entry]
    exact unfailing.shows
  unread := by
    rw [carries.valid, carries.entry]
    exact unfailing.unread
  stops := by
    rw [carries.valid, Stops, carries.next, carries.prev]
    intro invalid
    obtain ⟨onward, backward⟩ := unfailing.stops invalid
    exact ⟨by rw [onward]; rfl, by rw [backward]; rfl⟩
  moved := by
    intro motion proper allowed
    rw [carries.valid] at allowed
    obtain ⟨arrived, moved, arrives⟩ := unfailing.moved motion proper allowed
    exact ⟨wrap arrived, by rw [carries.move, moved]; rfl, sub arrived arrives⟩
  forth := by
    rw [carries.span]
    exact (carries.ends_iff carries.next).mpr unfailing.forth
  back := by
    rw [carries.span]
    exact (carries.ends_iff carries.prev).mpr unfailing.back

/-- What goes wrong with no wrapped cursor goes wrong with none inside. -/
theorem Unfailing.unwrapped {wrapped : κ → Prop} (unfailing : outer.Unfailing wrapped)
    (carries : outer.Carries inner wrap) : inner.Unfailing fun cursor => wrapped (wrap cursor) := by
  intro cursor held
  have whole := unfailing (wrap cursor) held
  refine ⟨?_, ?_, ?_, ?_, ?_, ?_⟩
  · rw [← carries.valid, ← carries.entry]
    exact whole.shows
  · rw [← carries.valid, ← carries.entry]
    exact whole.unread
  · rw [← carries.valid]
    intro invalid
    have stops := whole.stops invalid
    rw [Stops, carries.next, carries.prev] at stops
    constructor
    · cases stepped : inner.next cursor <;> simp [stepped, Except.map] at stops
      rw [stops.1]
    · cases stepped : inner.prev cursor <;> simp [stepped, Except.map] at stops
      rw [stops.2]
  · intro motion proper allowed
    rw [← carries.valid] at allowed
    obtain ⟨arrived, moved, arrives⟩ := whole.moved motion proper allowed
    rw [carries.move] at moved
    cases inside : inner.move motion cursor with
    | error failure => simp [inside, Except.map] at moved
    | ok reached =>
      simp only [inside, Except.map, Except.ok.injEq] at moved
      exact ⟨reached, rfl, moved ▸ arrives⟩
  · rw [← carries.span]
    exact (carries.ends_iff carries.next).mp whole.forth
  · rw [← carries.span]
    exact (carries.ends_iff carries.prev).mp whole.back

end Wrapped

theorem ofNothing_unfailing : ofNothing.Unfailing fun _ => True := by
  intro cursor _
  refine ⟨fun valid => (by cases valid), fun _ => rfl, fun _ => ⟨rfl, rfl⟩, ?_, rfl, rfl⟩
  intro motion _ allowed
  rcases allowed with valid | jumps
  · cases valid
  · cases motion with
    | next | prev => exact jumps.elim
    | seek | first | last => exact ⟨(), rfl, trivial⟩

section Lists

variable {entries : List Bytes} {place : Option Nat → ι} {order : KeyOrder}

theorem Steps.ends_next (steps : moves.Steps entries place) {bound index : Nat}
    (enough : entries.length - index ≤ bound) :
    moves.Ends moves.next bound (place (inside entries index)) := by
  induction bound generalizing index with
  | zero =>
    rw [inside, if_neg (by omega)]
    exact steps.invalid
  | succ bound ih =>
    by_cases within : index < entries.length
    · rw [inside, if_pos within]
      exact fun _ => ⟨_, steps.next within, ih (by omega)⟩
    · rw [inside, if_neg within]
      exact .of_invalid steps.invalid ..

theorem Steps.ends_prev (steps : moves.Steps entries place) {bound index : Nat}
    (within : index < entries.length) (enough : index < bound) :
    moves.Ends moves.prev bound (place (some index)) := by
  induction bound generalizing index with
  | zero => omega
  | succ bound ih =>
    refine fun _ => ⟨_, steps.prev within, ?_⟩
    by_cases start : index = 0
    · rw [if_pos start]
      exact .of_invalid steps.invalid ..
    · rw [if_neg start]
      exact ih (by omega) (by omega)

/-- Cursors that follow a list of entries with keys are unfailing if they find something for every
key. -/
theorem Follows.unfailing (follows : moves.Follows order entries place)
    (readable : ∀ entry ∈ entries, HasKey HasTag entry)
    (finds : ∀ at? target, HasTag target →
      ∃ reached, moves.seek target (place at?) = .ok (place (inside entries reached))) :
    moves.Unfailing fun cursor => ∃ index, cursor = place (inside entries index) := by
  have jumps : ∀ at? (motion : Motion), motion.Proper → motion.Jumps →
      ∃ reached, moves.move motion (place at?) = .ok (place (inside entries reached)) := by
    intro at? motion proper jumps
    cases motion with
    | next | prev => exact jumps.elim
    | seek target => exact finds at? target proper
    | first => exact ⟨_, follows.first at?⟩
    | last => exact ⟨_, follows.last at?⟩
  rintro _ ⟨index, rfl⟩
  by_cases within : index < entries.length
  · rw [inside, if_pos within]
    refine ⟨fun _ => ?_, fun invalid => ?_, fun invalid => ?_, fun motion proper _ => ?_, ?_, ?_⟩
    · exact ⟨_, follows.entry (List.getElem?_eq_getElem within), readable _ (List.getElem_mem within)⟩
    · cases (follows.valid within).symm.trans invalid
    · cases (follows.valid within).symm.trans invalid
    · cases motion with
      | next => exact ⟨_, follows.next within, _, rfl⟩
      | prev =>
        refine ⟨_, follows.prev within, ?_⟩
        by_cases start : index = 0
        · exact ⟨entries.length, by simp [start, inside]⟩
        · exact ⟨index - 1, by rw [if_neg start, inside, if_pos (by omega)]⟩
      | seek | first | last =>
        obtain ⟨reached, moved⟩ := jumps (some index) _ proper trivial
        exact ⟨_, moved, reached, rfl⟩
    · have ends : moves.Ends moves.next _ (place (inside entries index)) :=
        follows.ends_next (Nat.le_trans (Nat.sub_le ..) (follows.span within))
      rwa [inside, if_pos within] at ends
    · exact follows.ends_prev within (Nat.lt_of_lt_of_le within (follows.span within))
  · rw [inside, if_neg within]
    refine ⟨fun valid => ?_, fun _ => follows.unread, fun _ => follows.stops, fun motion proper allowed => ?_,
      .of_invalid follows.invalid .., .of_invalid follows.invalid ..⟩
    · cases follows.invalid.symm.trans valid
    · rcases allowed with valid | jump
      · cases follows.invalid.symm.trans valid
      · obtain ⟨reached, moved⟩ := jumps none _ proper jump
        exact ⟨_, moved, reached, rfl⟩

/-- In sorted entries something is found for every key. -/
theorem Follows.unfailing_sorted (follows : moves.Follows order entries place)
    (total : order.TotalOn HasTag) (readable : ∀ entry ∈ entries, HasKey HasTag entry)
    (sorted : order.Sorted entries) :
    moves.Unfailing fun cursor => ∃ index, cursor = place (inside entries index) := by
  refine follows.unfailing readable ?_
  intro at? target tagged
  obtain ⟨front, back, parts, split⟩ := total.splits tagged readable sorted
  exact ⟨_, follows.seek at? parts split⟩

end Lists

end Moves

namespace RunCursor

/-- A cursor is over handles that name entries with keys, at one of them or at none. -/
def Live (shelf : Shelf) (cursor : RunCursor) : Prop :=
  ∃ entries index, shelf.Reads cursor.handles entries ∧ (∀ entry ∈ entries, HasKey HasTag entry) ∧
    cursor.position = inside entries index

/-- Cursors over runs of handles are unfailing, whether the runs are in order or not. -/
theorem unfailing {shelf : Shelf} (total : shelf.order.TotalOn HasTag) :
    (moves shelf).Unfailing (Live shelf) := by
  rintro ⟨handles, _⟩ ⟨entries, index, reads, readable, rfl⟩
  have follows := follows reads
  have finds : ∀ at? target, HasTag target → ∃ reached,
      (moves shelf).seek target { handles, position := at? }
        = .ok { handles, position := inside entries reached } := by
    intro at? target tagged
    obtain ⟨point, found⟩ : ∃ point, partitionPoint (shelf.isBelowKey target) handles = .ok point := by
      refine partitionPoint_ok fun handle member => ?_
      obtain ⟨entry, inEntries, read⟩ := reads.exists_entry member
      obtain ⟨key, cut, keyed⟩ := readable entry inEntries
      obtain ⟨ordering, answer⟩ := total.answers keyed tagged
      refine ⟨ordering.isLT, ?_⟩
      rw [Shelf.isBelowKey, Shelf.compareKey_eq read, KeyOrder.compareEntryKey_eq _ cut, answer]
      rfl
    refine ⟨point, ?_⟩
    simp only [moves, found, bind, Except.bind, pure, Except.pure, goTo, inside, reads.length_eq]
  refine (follows.unfailing readable finds _ ⟨index, rfl⟩).mono ?_
  rintro _ ⟨reached, rfl⟩
  exact ⟨entries, reached, reads, readable, rfl⟩

end RunCursor

namespace GroupCursor

variable {ι : Type} {rule : PrefixRule} {inner : Moves ι} {good : ι → Prop}
  {openBucket : Bytes → Except Failure (Option ι)}

/-- The inner cursor is good, if there is one. -/
def InnerIs (good : ι → Prop) (cursor : GroupCursor ι) : Prop := ∀ place ∈ cursor.inner, good place

section Steps

variable (unfailing : inner.Unfailing good)
  (groups : ∀ userKey, ∃ group, rule.groupOf userKey = .ok group)
include unfailing groups

theorem clamp_cases {place : ι} (held : good place) (group : Bytes) :
    clamp rule inner { group, inner := some place } = .ok { group, inner := some place } ∨
      clamp rule inner { group, inner := some place } = .ok { group } := by
  cases valid : inner.valid place with
  | false => exact .inr (by simp [clamp, valid])
  | true =>
    obtain ⟨entry, read, key, cut, tagged⟩ := (unfailing place held).shows valid
    obtain ⟨other, grouped⟩ := groups (userPart key)
    have user := entryUserKey_eq cut tagged
    simp only [clamp, valid, if_true, read, user, grouped, bind, Except.bind, pure, Except.pure]
    split
    · exact .inl rfl
    · exact .inr rfl

theorem clamp_good {place : ι} (held : good place) (group : Bytes) :
    ∃ kept, clamp rule inner { group, inner := some place } = .ok kept ∧ kept.InnerIs good := by
  rcases clamp_cases unfailing groups held group with kept | dropped
  · exact ⟨_, kept, fun other same => Option.some.inj same ▸ held⟩
  · exact ⟨_, dropped, fun other same => by cases same⟩

/-- Going on within a group comes to an end with the bucket or before. -/
theorem step_ends {motion : ι → Except Failure ι}
    (onward : ∀ {place further}, good place → inner.valid place = true →
      motion place = .ok further → good further) {bound : Nat} {place : ι} (held : good place)
    (ends : inner.Ends motion bound place) (group : Bytes) :
    (moves rule openBucket inner).Ends (step rule inner motion) bound
      { group, inner := some place } := by
  induction bound generalizing place with
  | zero => exact ends
  | succ bound ih =>
    intro valid
    have innerValid : inner.valid place = true := valid
    obtain ⟨further, stepped, rest⟩ := ends innerValid
    have next := onward held innerValid stepped
    have clamps : step rule inner motion { group, inner := some place }
        = clamp rule inner { group, inner := some further } := by
      simp [step, Option.filter, innerValid, atPlace, stepped, bind, Except.bind]
    rcases clamp_cases unfailing groups next group with kept | dropped
    · exact ⟨_, clamps.trans kept, ih next rest⟩
    · exact ⟨_, clamps.trans dropped, .of_invalid rfl ..⟩

theorem step_good {motion : ι → Except Failure ι} {place further : ι} (group : Bytes)
    (valid : inner.valid place = true) (stepped : motion place = .ok further)
    (held : good further) :
    ∃ arrived, step rule inner motion { group, inner := some place } = .ok arrived ∧
      arrived.InnerIs good := by
  obtain ⟨kept, clamped, isGood⟩ := clamp_good unfailing groups held group
  refine ⟨kept, ?_, isGood⟩
  simpa [step, Option.filter, valid, atPlace, stepped, bind, Except.bind] using clamped

end Steps

/-- Cursors within groups are unfailing if those along the buckets are, every user key has a group, and
buckets open as good cursors. -/
theorem unfailing (along : inner.Unfailing good)
    (groups : ∀ userKey, ∃ group, rule.groupOf userKey = .ok group)
    (opens : ∀ userKey, ∃ opened, openBucket userKey = .ok opened ∧ ∀ place ∈ opened, good place) :
    (moves rule openBucket inner).Unfailing (InnerIs good) := by
  have jumps : ∀ (cursor : GroupCursor ι) (motion : Motion), motion.Proper → motion.Jumps →
      ∃ arrived, (moves rule openBucket inner).move motion cursor = .ok arrived ∧
        arrived.InnerIs good := by
    intro cursor motion proper jumps
    cases motion with
    | next | prev => exact jumps.elim
    | first | last => exact ⟨_, rfl, fun place same => by cases same⟩
    | seek target =>
      obtain ⟨group, grouped⟩ := groups (userPart target)
      obtain ⟨opened, done, places⟩ := opens (userPart target)
      simp only [Moves.move, moves, userKeyOf_eq proper, grouped, done, bind, Except.bind]
      cases opened with
      | none => exact ⟨_, rfl, fun place same => by cases same⟩
      | some place =>
        obtain ⟨start, sought, held⟩ :=
          (along place (places place rfl)).moved (.seek target) proper (.inr trivial)
        simp only [show inner.seek target place = .ok start from sought]
        exact clamp_good along groups held group
  rintro ⟨group, inner?⟩ held
  cases inner? with
  | none =>
    refine ⟨fun valid => (by cases valid), fun _ => rfl, fun _ => ⟨rfl, rfl⟩, fun motion proper allowed => ?_,
      rfl, rfl⟩
    rcases allowed with valid | jump
    · cases valid
    · exact jumps _ _ proper jump
  | some place =>
    have here := along place (held place rfl)
    refine ⟨here.shows, here.unread, fun invalid => ?_, fun motion proper allowed => ?_, ?_, ?_⟩
    · have innerInvalid : inner.valid place = false := invalid
      simp [Moves.Stops, moves, step, Option.filter, innerInvalid, atPlace]
    · rcases allowed with valid | jump
      · cases motion with
        | next | prev =>
          obtain ⟨further, stepped, good⟩ := here.moved _ proper (.inl valid)
          exact step_good along groups group valid stepped good
        | seek | first | last => exact jumps _ _ proper trivial
      · exact jumps _ _ proper jump
    · exact step_ends along groups along.next (held place rfl) here.forth group
    · exact step_ends along groups along.prev (held place rfl) here.back group

end GroupCursor

end WriteBuffer
