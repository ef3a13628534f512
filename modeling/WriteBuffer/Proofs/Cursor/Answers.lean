import Mathlib
import WriteBuffer.Proofs.Cursor.Following

/-!
What cursors answer, said without a list. A cursor among stored entries goes on to the least entry
above its own, back to the greatest below it, and finds the least that is not below a target
(`Moves.Answers`); cursors that follow a list in which the entries stand in order answer so
(`Moves.Follows.answers`).
-/
namespace WriteBuffer

namespace KeyOrder

variable {order : KeyOrder} {p q : Bytes → Prop} {front back entries : List Bytes}

/-- The least of some entries, or nothing where there is none. -/
def Least (order : KeyOrder) (p : Bytes → Prop) : Option Bytes → Prop
  | none => ∀ entry, ¬ p entry
  | some entry => p entry ∧ ∀ other, p other → other = entry ∨ order.Below entry other

/-- The greatest of some entries, or nothing where there is none. -/
def Greatest (order : KeyOrder) (p : Bytes → Prop) : Option Bytes → Prop
  | none => ∀ entry, ¬ p entry
  | some entry => p entry ∧ ∀ other, p other → other = entry ∨ order.Below other entry

theorem Least.congr {found : Option Bytes} (least : order.Least p found)
    (same : ∀ entry, p entry ↔ q entry) : order.Least q found := by
  rwa [show q = p from funext fun entry => propext (same entry).symm]

theorem Greatest.congr {found : Option Bytes} (greatest : order.Greatest p found)
    (same : ∀ entry, p entry ↔ q entry) : order.Greatest q found := by
  rwa [show q = p from funext fun entry => propext (same entry).symm]

theorem Sorted.least (sorted : order.Sorted (front ++ back)) (yes : ∀ entry ∈ back, p entry)
    (no : ∀ entry ∈ front, ¬ p entry) :
    order.Least (fun entry => entry ∈ front ++ back ∧ p entry) back.head? := by
  have atBack : ∀ entry, entry ∈ front ++ back → p entry → entry ∈ back := fun entry member holds =>
    (List.mem_append.mp member).resolve_left fun inFront => no entry inFront holds
  cases back with
  | nil => exact fun entry both => List.not_mem_nil (atBack entry both.1 both.2)
  | cons first rest =>
    refine ⟨⟨by simp, yes first List.mem_cons_self⟩, ?_⟩
    rintro other ⟨member, holds⟩
    have sortedBack := (List.pairwise_append.mp sorted).2.1
    exact (List.mem_cons.mp (atBack other member holds)).imp_right
      ((List.pairwise_cons.mp sortedBack).1 other)

theorem Sorted.greatest (sorted : order.Sorted (front ++ back)) (yes : ∀ entry ∈ front, p entry)
    (no : ∀ entry ∈ back, ¬ p entry) :
    order.Greatest (fun entry => entry ∈ front ++ back ∧ p entry) front.getLast? := by
  have inFront : ∀ entry, entry ∈ front ++ back → p entry → entry ∈ front :=
    fun entry member holds =>
      (List.mem_append.mp member).resolve_right fun atBack => no entry atBack holds
  rcases List.eq_nil_or_concat' front with rfl | ⟨initial, last, rfl⟩
  · exact fun entry both => List.not_mem_nil (inFront entry both.1 both.2)
  · rw [List.getLast?_append, List.getLast?_singleton, Option.some_or]
    refine ⟨⟨by simp, yes last (by simp)⟩, ?_⟩
    rintro other ⟨member, holds⟩
    have sortedFront := (List.pairwise_append.mp sorted).1
    rcases List.mem_append.mp (inFront other member holds) with earlier | isLast
    · exact .inr ((List.pairwise_append.mp sortedFront).2.2 other earlier last (by simp))
    · exact .inl (List.mem_singleton.mp isLast)

theorem Sorted.least_head (sorted : order.Sorted entries) :
    order.Least (· ∈ entries) entries.head? :=
  (Sorted.least (p := fun _ => True) (show order.Sorted ([] ++ entries) from sorted) (by simp)
    (by simp)).congr (by simp)

theorem Sorted.greatest_getLast (sorted : order.Sorted entries) :
    order.Greatest (· ∈ entries) entries.getLast? :=
  (Sorted.greatest (p := fun _ => True) (show order.Sorted (entries ++ []) by simpa using sorted)
    (by simp) (by simp)).congr (by simp)

section At

variable {keys : Bytes → Prop} {index : Nat} (sorted : order.Sorted entries)
  (total : order.TotalOn keys) (readable : ∀ entry ∈ entries, HasKey keys entry)
  (within : index < entries.length)
include sorted total readable

/-- Of sorted entries, the least above the one at an index is the next. -/
theorem Sorted.least_above :
    order.Least (fun entry => entry ∈ entries ∧ order.Below entries[index] entry)
      entries[index + 1]? := by
  have here := readable _ (List.getElem_mem within)
  have parts := List.take_append_drop (index + 1) entries
  have ordered := sorted
  rw [← parts] at ordered
  have least := ordered.least (p := order.Below entries[index]) ?_ ?_
  · rw [parts, List.head?_drop] at least
    exact least
  · have last : entries[index] ∈ entries.take (index + 1) :=
      List.mem_take_iff_getElem.mpr ⟨index, by omega, rfl⟩
    exact (List.pairwise_append.mp ordered).2.2 _ last
  · intro other inFront above
    rw [List.take_succ_eq_append_getElem within, List.mem_append, List.mem_singleton] at inFront
    rcases inFront with earlier | rfl
    · have below := List.pairwise_append.mp (List.take_append_drop index entries ▸ sorted)
      have atBack : entries[index] ∈ entries.drop index :=
        List.mem_drop_iff_getElem.mpr ⟨0, by omega, rfl⟩
      exact total.below_asymm (readable _ (List.mem_of_mem_take earlier)) here
        (below.2.2 other earlier _ atBack) above
    · exact total.below_irrefl here above

/-- Of sorted entries, the greatest below the one at an index is the last in front of it. -/
theorem Sorted.greatest_below :
    order.Greatest (fun entry => entry ∈ entries ∧ order.Below entry entries[index])
      (entries.take index).getLast? := by
  have here := readable _ (List.getElem_mem within)
  have parts := List.take_append_drop index entries
  have ordered := sorted
  rw [← parts] at ordered
  have greatest := ordered.greatest (p := (order.Below · entries[index])) ?_ ?_
  · rw [parts] at greatest
    exact greatest
  · have atBack : entries[index] ∈ entries.drop index :=
      List.mem_drop_iff_getElem.mpr ⟨0, by omega, rfl⟩
    exact fun other inFront => (List.pairwise_append.mp ordered).2.2 other inFront _ atBack
  · intro other atBack below
    rw [← List.getElem_cons_drop within] at atBack
    rcases List.mem_cons.mp atBack with rfl | later
    · exact total.below_irrefl here below
    · have above := (List.pairwise_append.mp ordered).2.1
      rw [← List.getElem_cons_drop within] at above
      exact total.below_asymm here (readable _ (List.mem_of_mem_drop later))
        ((List.pairwise_cons.mp above).1 other later) below

end At

end KeyOrder

namespace Moves

variable {ι : Type} {moves : Moves ι} {order : KeyOrder} {keys : Bytes → Prop}
  {entries : List Bytes} {place : Option Nat → ι}

/-- A movement succeeds, and what the cursor is at then has a property. -/
def Lands (moves : Moves ι) (moved : Except Failure ι) (p : Option Bytes → Prop) : Prop :=
  ∃ cursor found, moved = .ok cursor ∧ moves.current cursor = .ok found ∧ p found

/-- A cursor is at one of the stored entries or at none, and every movement that is open to it takes
it to the stored entry that the order says. -/
structure Answers (moves : Moves ι) (order : KeyOrder) (keys stored : Bytes → Prop) (cursor : ι) :
    Prop where
  current : ∃ found, moves.current cursor = .ok found ∧ ∀ entry ∈ found, stored entry
  next : ∀ entry, moves.current cursor = .ok (some entry) →
    moves.Lands (moves.next cursor) (order.Least fun other => stored other ∧ order.Below entry other)
  prev : ∀ entry, moves.current cursor = .ok (some entry) →
    moves.Lands (moves.prev cursor)
      (order.Greatest fun other => stored other ∧ order.Below other entry)
  seek : ∀ target, keys target → moves.Lands (moves.seek target cursor)
    (order.Least fun other => stored other ∧ order.compareEntryKey other target ≠ .ok .lt)
  first : moves.Lands (moves.first cursor) (order.Least stored)
  last : moves.Lands (moves.last cursor) (order.Greatest stored)

theorem Answers.congr {stored same : Bytes → Prop} {cursor : ι}
    (answers : moves.Answers order keys stored cursor) (exactly : ∀ entry, stored entry ↔ same entry) :
    moves.Answers order keys same cursor := by
  rwa [show same = stored from funext fun entry => propext (exactly entry).symm]

theorem Steps.current_inside (steps : moves.Steps entries place) (index : Nat) :
    moves.current (place (inside entries index)) = .ok entries[index]? := by
  by_cases within : index < entries.length
  · simp only [current, inside, within, if_true, steps.valid within,
      steps.entry (List.getElem?_eq_getElem within), List.getElem?_eq_getElem within, Except.map]
  · simp [current, inside, within, steps.invalid]

/-- A step back from an index ends at the last of the entries in front. -/
theorem Steps.lands_prev (steps : moves.Steps entries place) {index : Nat}
    (within : index < entries.length) {p : Option Bytes → Prop}
    (holds : p (entries.take index).getLast?) :
    moves.Lands (moves.prev (place (inside entries index))) p := by
  rw [inside, if_pos within, steps.prev within]
  refine ⟨_, _, rfl, ?_, holds⟩
  by_cases start : index = 0
  · simp [start, current, steps.invalid]
  · have before : index - 1 < entries.length := by omega
    have found := steps.current_inside (index - 1)
    rw [inside, if_pos before] at found
    rw [if_neg start, found, List.getLast?_take, if_neg start, List.getElem?_eq_getElem before]
    rfl

/-- Cursors that follow sorted entries answer as the order says. -/
theorem Follows.answers (follows : moves.Follows order entries place) (total : order.TotalOn keys)
    (readable : ∀ entry ∈ entries, HasKey keys entry) (sorted : order.Sorted entries) (index : Nat) :
    moves.Answers order keys (· ∈ entries) (place (inside entries index)) where
  current := ⟨_, follows.current_inside index, fun entry found => List.mem_of_getElem? found⟩
  next := by
    intro entry shown
    rw [follows.current_inside, Except.ok.injEq] at shown
    obtain ⟨within, rfl⟩ := List.getElem?_eq_some_iff.mp shown
    exact ⟨_, _, by rw [inside, if_pos within, follows.next within],
      follows.current_inside (index + 1), sorted.least_above total readable within⟩
  prev := by
    intro entry shown
    rw [follows.current_inside, Except.ok.injEq] at shown
    obtain ⟨within, rfl⟩ := List.getElem?_eq_some_iff.mp shown
    exact follows.lands_prev within (sorted.greatest_below total readable within)
  seek := by
    intro target held
    obtain ⟨front, back, rfl, split⟩ := total.splits held readable sorted
    refine ⟨_, _, follows.seek _ rfl split, follows.current_inside _, ?_⟩
    rw [List.getElem?_append_right (Nat.le_refl _), Nat.sub_self, ← List.head?_eq_getElem?]
    refine sorted.least ?_ ?_
    · intro entry atBack below
      obtain ⟨ordering, answer, notLess⟩ := split.notBelow entry atBack
      exact notLess (Except.ok.inj (answer.symm.trans below))
    · exact fun entry inFront notBelow => notBelow (split.below entry inFront)
  first := by
    refine ⟨_, _, follows.first _, follows.current_inside 0, ?_⟩
    rw [← List.head?_eq_getElem?]
    exact sorted.least_head
  last := by
    refine ⟨_, _, follows.last _, follows.current_inside _, ?_⟩
    rw [← List.getLast?_eq_getElem?]
    exact sorted.greatest_getLast

/-- A cursor that follows sorted entries is at one of their places after any movement, whether that
succeeds or not. -/
theorem Follows.travel_inside (follows : moves.Follows order entries place)
    (total : order.TotalOn keys) (readable : ∀ entry ∈ entries, HasKey keys entry)
    (sorted : order.Sorted entries) {motion : Motion}
    (known : ∀ target, motion = .seek target → keys target) (index : Nat) :
    ∃ reached, moves.travel [motion] (place (inside entries index))
      = place (inside entries reached) := by
  have moved : ∀ {reached}, moves.move motion (place (inside entries index))
      = .ok (place (inside entries reached)) → moves.travel [motion] (place (inside entries index))
        = place (inside entries reached) := by
    intro reached same
    simp only [travel, List.foldl_cons, List.foldl_nil, same, Except.toOption, Option.getD_some]
  have stays : ∀ {failure}, moves.move motion (place (inside entries index)) = .error failure →
      moves.travel [motion] (place (inside entries index)) = place (inside entries index) := by
    intro failure failed
    simp only [travel, List.foldl_cons, List.foldl_nil, failed, Except.toOption, Option.getD_none]
  have here : index < entries.length → inside entries index = some index := fun within =>
    if_pos within
  have nowhere : ¬ index < entries.length → inside entries index = none := fun outside =>
    if_neg outside
  cases motion with
  | first => exact ⟨0, moved (follows.first _)⟩
  | last => exact ⟨_, moved (follows.last _)⟩
  | seek target =>
    obtain ⟨front, back, parts, split⟩ := total.splits (known target rfl) readable sorted
    exact ⟨_, moved (follows.seek _ parts split)⟩
  | next =>
    by_cases within : index < entries.length
    · exact ⟨index + 1, moved (by rw [here within]; exact follows.next within)⟩
    · exact ⟨index, stays (by rw [nowhere within]; exact follows.stops.1)⟩
  | prev =>
    by_cases within : index < entries.length
    · have back := follows.prev within
      rw [← here within] at back
      by_cases start : index = 0
      · rw [if_pos start] at back
        rw [show none = inside entries entries.length from (if_neg (Nat.lt_irrefl _)).symm] at back
        exact ⟨_, moved back⟩
      · rw [if_neg start] at back
        rw [show some (index - 1) = inside entries (index - 1) from (if_pos (by omega)).symm] at back
        exact ⟨_, moved back⟩
    · exact ⟨index, stays (by rw [nowhere within]; exact follows.stops.2)⟩

end Moves

end WriteBuffer
