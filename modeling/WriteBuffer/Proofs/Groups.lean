import Mathlib
import WriteBuffer.PrefixRule
import WriteBuffer.Proofs.VersionedOrder

/-!
Groups of user keys. The groups of a rule whose groups grow with the keys are intervals of user keys
(`PrefixRule.Monotone.convex`), so the entries of one group stand side by side in a sorted list. All
rules that take a fixed number of leading bytes are of this kind, and so is the rule that takes whole
keys (`PrefixRule.BuiltIn.monotone`). What is known of their groups is gathered in
`PrefixRule.groups_convex`.
-/
namespace WriteBuffer

/-- Initial parts are ordered as the byte strings they are cut from. -/
theorem compare_take {a b : Bytes} (notGreater : compare a b ≠ .gt) (length : Nat) :
    compare (a.take length) (b.take length) ≠ .gt := by
  induction a generalizing b length with
  | nil => cases length <;> cases b <;> simp
  | cons x xs ih =>
    cases b with
    | nil => simp at notGreater
    | cons y ys =>
      cases length with
      | zero => simp
      | succ length =>
        rw [List.compare_cons_cons] at notGreater
        rw [List.take_succ_cons, List.take_succ_cons, List.compare_cons_cons]
        cases heads : compare x y with
        | lt => simp
        | gt => simp [heads] at notGreater
        | eq =>
          rw [heads, Ordering.eq_then] at notGreater
          rw [Ordering.eq_then]
          exact ih notGreater length

namespace PrefixRule

variable {rule : PrefixRule} {group : Bytes} {a b c : Bytes}

/-- A rule that groups every user key, and never a greater key into a smaller group. -/
structure Monotone (rule : PrefixRule) : Prop where
  groups : ∀ key, ∃ group, rule.groupOf key = .ok group
  grows : ∀ {a b x y}, rule.groupOf a = .ok x → rule.groupOf b = .ok y → compare a b ≠ .gt →
    compare x y ≠ .gt

/-- The rules of the library itself: those that take leading bytes, and the one that takes all. -/
inductive BuiltIn : PrefixRule → Prop
  | fixed (length : Nat) : BuiltIn (fixed length)
  | capped (length : Nat) : BuiltIn (capped length)
  | whole : BuiltIn whole

/-- A key between two keys of one group is of that group. -/
theorem Monotone.convex (monotone : rule.Monotone) (groupA : rule.groupOf a = .ok group)
    (groupC : rule.groupOf c = .ok group) (ab : compare a b ≠ .gt) (bc : compare b c ≠ .gt) :
    rule.groupOf b = .ok group := by
  obtain ⟨other, groupB⟩ := monotone.groups b
  have upper := monotone.grows groupA groupB ab
  have lower := monotone.grows groupB groupC bc
  have same : compare group other = .eq := by
    cases ordering : compare group other with
    | eq => rfl
    | gt => exact absurd ordering upper
    | lt => exact absurd (Std.OrientedCmp.gt_of_lt ordering) lower
  rw [groupB, Std.compare_eq_iff_eq.mp same]

theorem groupOf_fixed (length : Nat) (key : Bytes) :
    (fixed length).groupOf key = .ok (key.take length) := by
  by_cases enough : length ≤ key.length
  · simp [groupOf, fixed, enough]
  · rw [List.take_of_length_le (by omega)]
    simp [groupOf, fixed, enough]

theorem BuiltIn.monotone (builtIn : rule.BuiltIn) : rule.Monotone := by
  cases builtIn with
  | fixed length =>
    refine ⟨fun key => ⟨_, groupOf_fixed length key⟩, ?_⟩
    intro a b x y groupA groupB notGreater
    rw [groupOf_fixed] at groupA groupB
    obtain rfl := Except.ok.inj groupA
    obtain rfl := Except.ok.inj groupB
    exact compare_take notGreater length
  | capped length =>
    refine ⟨fun key => ⟨_, rfl⟩, ?_⟩
    intro a b x y groupA groupB notGreater
    obtain rfl := Except.ok.inj groupA
    obtain rfl := Except.ok.inj groupB
    exact compare_take notGreater length
  | whole =>
    refine ⟨fun key => ⟨_, rfl⟩, ?_⟩
    intro a b x y groupA groupB notGreater
    obtain rfl := Except.ok.inj groupA
    obtain rfl := Except.ok.inj groupB
    exact notGreater

/-- A key is grouped by an initial part of it, which is grouped by itself. -/
theorem BuiltIn.groupOf_initial (builtIn : rule.BuiltIn) (key : Bytes) :
    ∃ group, rule.groupOf key = .ok group ∧ group <+: key ∧ rule.groupOf group = .ok group := by
  have cut : ∀ length, (key.take length).take length = key.take length := by
    intro length
    rw [List.take_take, Nat.min_self]
  cases builtIn with
  | fixed length =>
    refine ⟨_, groupOf_fixed length key, List.take_prefix length key, ?_⟩
    rw [groupOf_fixed, cut]
  | capped length => exact ⟨_, rfl, List.take_prefix length key, congrArg Except.ok (cut length)⟩
  | whole => exact ⟨key, rfl, List.prefix_rfl, rfl⟩

/-- Whether two keys are grouped together can always be told, and is whether their groups are the
same. -/
theorem Monotone.sameGroup_eq (monotone : rule.Monotone) (a b : Bytes) :
    rule.sameGroup a b = .ok (decide (rule.groupOf a = rule.groupOf b)) := by
  obtain ⟨x, groupA⟩ := monotone.groups a
  obtain ⟨y, groupB⟩ := monotone.groups b
  simp [sameGroup, groupA, groupB, bind, Except.bind, pure, Except.pure, beq_eq_decide]

/-- Each rule of the library groups every user key, in its domain or not, by an initial part of it that
is grouped by itself. Being grouped together is an equivalence, and a key between two keys of one group
is of that group. -/
theorem groups_convex (builtIn : rule.BuiltIn) :
    (∀ key, ∃ group, rule.groupOf key = .ok group ∧ group <+: key ∧
      rule.groupOf group = .ok group) ∧
    (∀ a b c, compare a b ≠ .gt → compare b c ≠ .gt → rule.groupOf a = rule.groupOf c →
      rule.groupOf b = rule.groupOf a) ∧
    (∀ a b, rule.sameGroup a b = .ok (decide (rule.groupOf a = rule.groupOf b))) ∧
    Equivalence fun a b => rule.sameGroup a b = .ok true := by
  have monotone := builtIn.monotone
  refine ⟨builtIn.groupOf_initial, ?_, monotone.sameGroup_eq, ?_⟩
  · intro a b c ab bc same
    obtain ⟨group, groupA⟩ := monotone.groups a
    rw [groupA, monotone.convex groupA (same ▸ groupA) ab bc]
  · have together : (fun a b => rule.sameGroup a b = .ok true)
        = InvImage (· = ·) rule.groupOf := by
      funext a b
      simp [monotone.sameGroup_eq, InvImage]
    rw [together]
    exact eq_equivalence.comap rule.groupOf

/-- The keys from "ab" to "abz" are of one group, and "a", which is too short for it, of its own. -/
theorem groups_convex_leading_two :
    (fixed 2).groupOf [97, 98, 0] = (fixed 2).groupOf [97, 98] ∧
      (fixed 2).sameGroup [97] [97, 98] = .ok false := by
  obtain ⟨_, convex, together, _⟩ := groups_convex (.fixed 2)
  refine ⟨convex [97, 98] [97, 98, 0] [97, 98, 122] (by decide) (by decide) (by decide), ?_⟩
  rw [together]
  decide

end PrefixRule

def groupOfEntry (rule : PrefixRule) (entry : Bytes) : Except Failure Bytes := do
  rule.groupOf (← entryUserKey entry)

theorem groupOfEntry_eq {rule : PrefixRule} {entry key : Bytes} (cut : entryKey entry = .ok key)
    (tagged : HasTag key) : groupOfEntry rule entry = rule.groupOf (userPart key) := by
  simp only [groupOfEntry, entryUserKey, cut, bind, Except.bind, userKeyOf_eq tagged]

/-- Between two entries of one group, in the versioned order, there are only entries of it. -/
theorem groupOfEntry_between {rule : PrefixRule} (monotone : rule.Monotone) {a b c group : Bytes}
    (hasA : HasKey HasTag a) (hasB : HasKey HasTag b) (hasC : HasKey HasTag c)
    (ab : KeyOrder.versioned.Below a b) (bc : KeyOrder.versioned.Below b c)
    (groupA : groupOfEntry rule a = .ok group) (groupC : groupOfEntry rule c = .ok group) :
    groupOfEntry rule b = .ok group := by
  obtain ⟨keyA, cutA, taggedA⟩ := hasA
  obtain ⟨keyB, cutB, taggedB⟩ := hasB
  obtain ⟨keyC, cutC, taggedC⟩ := hasC
  rw [groupOfEntry_eq cutA taggedA] at groupA
  rw [groupOfEntry_eq cutC taggedC] at groupC
  rw [groupOfEntry_eq cutB taggedB]
  rw [KeyOrder.Below, KeyOrder.compareEntries_eq _ cutB, KeyOrder.compareEntryKey_eq _ cutA] at ab
  rw [KeyOrder.Below, KeyOrder.compareEntries_eq _ cutC, KeyOrder.compareEntryKey_eq _ cutB] at bc
  exact monotone.convex groupA groupC
    (KeyOrder.userPart_le_of_notAbove taggedA taggedB (by simp [ab]))
    (KeyOrder.userPart_le_of_notAbove taggedB taggedC (by simp [bc]))

end WriteBuffer
