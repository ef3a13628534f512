import Mathlib
import WriteBuffer.Cursor.Prefix
import WriteBuffer.Proofs.Cursor.Following
import WriteBuffer.Proofs.Groups
import WriteBuffer.Proofs.Storage

/-!
Cursors within one group. In a sorted list the entries of a group form a block
(`GroupCursor.Block.of_sorted`), and a cursor within the group steps through this block and nothing
else (`GroupCursor.Block.steps`). Seeking lands on the first entry of the block that is not below the
target, if there is one (`GroupCursor.Block.seek_eq`).
-/
namespace WriteBuffer

namespace GroupCursor

variable {ι : Type} {rule : PrefixRule} {inner : Moves ι} {order : KeyOrder}
  {place : Option Nat → ι} {group : Bytes} {entries before block after : List Bytes}

/-- The entries of a group stand side by side in a list. -/
structure Block (rule : PrefixRule) (group : Bytes) (entries before block after : List Bytes) :
    Prop where
  parts : entries = before ++ (block ++ after)
  inside : ∀ entry ∈ block, groupOfEntry rule entry = .ok group
  outside : ∀ entry ∈ before ++ after,
    ∃ other, groupOfEntry rule entry = .ok other ∧ other ≠ group

/-- The elements with a property stand side by side if none without it stands between two of
them. -/
theorem exists_block {α : Type} {p : α → Prop} (xs : List α)
    (between : ∀ {x y z}, [x, y, z].Sublist xs → p x → p z → p y) :
    ∃ before block after, xs = before ++ (block ++ after) ∧ (∀ x ∈ block, p x) ∧
      ∀ x ∈ before ++ after, ¬ p x := by
  induction xs with
  | nil => exact ⟨[], [], [], rfl, by simp, by simp⟩
  | cons first rest ih =>
    obtain ⟨before, block, after, rfl, inside, outside⟩ :=
      ih fun sub => between (sub.trans (List.sublist_cons_self ..))
    by_cases has : p first
    · cases before with
      | nil =>
        refine ⟨[], first :: block, after, rfl, ?_, outside⟩
        intro x member
        rcases List.mem_cons.mp member with rfl | later
        · exact has
        · exact inside x later
      | cons next others =>
        -- A second element with the property would stand behind one without it.
        have none : block = [] := by
          refine List.eq_nil_iff_forall_not_mem.mpr ?_
          intro x member
          refine outside next (by simp) (between (x := first) (z := x) ?_ has (inside x member))
          refine List.Sublist.cons_cons first ?_
          refine List.Sublist.cons_cons next ?_
          exact List.singleton_sublist.mpr (by simp [member])
        subst none
        refine ⟨[], [first], next :: (others ++ after), rfl, ?_, by simpa using outside⟩
        intro x member
        obtain rfl := List.mem_singleton.mp member
        exact has
    · refine ⟨first :: before, block, after, rfl, inside, ?_⟩
      intro x member
      rcases List.mem_cons.mp member with rfl | later
      · exact has
      · exact outside x later

/-- In a sorted list every group has a block. -/
theorem Block.of_sorted (monotone : rule.Monotone) (group : Bytes)
    (readable : ∀ entry ∈ entries, HasKey HasTag entry)
    (sorted : KeyOrder.versioned.Sorted entries) :
    ∃ before block after, Block rule group entries before block after := by
  obtain ⟨before, block, after, parts, inside, outside⟩ :=
    exists_block (p := fun entry => groupOfEntry rule entry = .ok group) entries (by
      intro x y z sub groupX groupZ
      have ordered := sorted.sublist sub
      have hasKey : ∀ entry ∈ [x, y, z], HasKey HasTag entry := fun entry member =>
        readable entry (sub.subset member)
      simp only [List.pairwise_cons, List.mem_cons, List.not_mem_nil, or_false] at ordered
      exact groupOfEntry_between monotone (hasKey x (by simp)) (hasKey y (by simp))
        (hasKey z (by simp)) (ordered.1 y (.inl rfl)) (ordered.2.1 z rfl) groupX groupZ)
  refine ⟨before, block, after, parts, inside, ?_⟩
  intro entry member
  have inEntries : entry ∈ entries := by
    rw [parts]
    simp only [List.mem_append] at member ⊢
    tauto
  obtain ⟨key, cut, tagged⟩ := readable entry inEntries
  obtain ⟨other, grouped⟩ := monotone.groups (userPart key)
  rw [← groupOfEntry_eq cut tagged] at grouped
  refine ⟨other, grouped, ?_⟩
  rintro rfl
  exact outside entry member grouped

/-- The cursor within a group at an index of its block, which begins behind the entries in front. -/
def within (group : Bytes) (before : List Bytes) (place : Option Nat → ι) (at? : Option Nat) :
    GroupCursor ι where
  group
  inner := at?.map fun index => place (some (before.length + index))

namespace Block

/-- A cursor is kept exactly if it is at an entry of the block. -/
theorem clamp_eq (blocked : Block rule group entries before block after)
    (steps : inner.Steps entries place) (index : Nat) :
    clamp rule inner { group, inner := some (place (WriteBuffer.inside entries index)) }
      = .ok (within group before place (if before.length ≤ index
          then WriteBuffer.inside block (index - before.length) else none)) := by
  by_cases inEntries : index < entries.length
  · have valid := steps.valid inEntries
    have entry := steps.entry (List.getElem?_eq_getElem inEntries)
    obtain ⟨found, isGroup, kept⟩ : ∃ found, groupOfEntry rule entries[index] = .ok found ∧
        (found = group ↔ before.length ≤ index ∧ index - before.length < block.length) := by
      have parts := blocked.parts
      subst parts
      rw [List.length_append, List.length_append] at inEntries
      by_cases inFront : index < before.length
      · obtain ⟨other, isOther, different⟩ := blocked.outside (before ++ (block ++ after))[index] (by
          rw [List.getElem_append_left inFront]
          exact List.mem_append_left _ (List.getElem_mem inFront))
        exact ⟨other, isOther, by simp [different]; omega⟩
      · by_cases inBlock : index - before.length < block.length
        · refine ⟨group, blocked.inside _ ?_, by simp [inBlock]; omega⟩
          rw [List.getElem_append_right (by omega), List.getElem_append_left inBlock]
          exact List.getElem_mem inBlock
        · obtain ⟨other, isOther, different⟩ :=
            blocked.outside (before ++ (block ++ after))[index] (by
              rw [List.getElem_append_right (by omega), List.getElem_append_right (by omega)]
              exact List.mem_append_right _ (List.getElem_mem _))
          exact ⟨other, isOther, by simp [different, inBlock]⟩
    have cut : (do rule.groupOf (← entryUserKey entries[index])) = Except.ok found := isGroup
    obtain ⟨userKey, user, grouped⟩ := bind_eq_ok.mp cut
    simp only [clamp, WriteBuffer.inside, inEntries, if_true, valid, entry, bind, Except.bind, user,
      grouped, pure, Except.pure]
    by_cases same : found = group
    · obtain ⟨behind, inBlock⟩ := kept.mp same
      simp [same, within, behind, inBlock, Nat.add_sub_cancel' behind]
    · have notInside : ¬ (before.length ≤ index ∧ index - before.length < block.length) :=
        fun both => same (kept.mpr both)
      by_cases behind : before.length ≤ index
      · have notInBlock : ¬ index - before.length < block.length := fun inBlock =>
          notInside ⟨behind, inBlock⟩
        simp [same, within, behind, notInBlock]
      · simp [same, within, behind]
  · have outside : ¬ index - before.length < block.length ∧ before.length ≤ index := by
      rw [blocked.parts, List.length_append, List.length_append] at inEntries
      omega
    simp [clamp, WriteBuffer.inside, inEntries, steps.invalid, within, outside]

/-- A cursor within a group steps through the block of the group. -/
theorem steps (blocked : Block rule group entries before block after)
    (steps : inner.Steps entries place)
    (openBucket : Bytes → Except Failure (Option ι)) :
    (moves rule openBucket inner).Steps block (within group before place) := by
  have inEntries : ∀ {index}, index < block.length → before.length + index < entries.length := by
    intro index inBlock
    rw [blocked.parts, List.length_append, List.length_append]
    omega
  constructor
  · rfl
  · intro index inBlock
    simp [moves, within, steps.valid (inEntries inBlock)]
  · intro index entry found
    refine steps.entry ?_
    have inBlock := (List.getElem?_eq_some_iff.mp found).1
    rw [blocked.parts, List.getElem?_append_right (by omega), Nat.add_sub_cancel_left,
      List.getElem?_append_left inBlock, found]
  · intro index inBlock
    have onward := blocked.clamp_eq steps (before.length + index + 1)
    rw [if_pos (by omega), show before.length + index + 1 - before.length = index + 1 by omega]
      at onward
    simp only [moves, step, within, Option.map_some, Option.filter, steps.valid (inEntries inBlock),
      if_true, atPlace, steps.next (inEntries inBlock), bind, Except.bind]
    exact onward
  · intro index inBlock
    have valid := steps.valid (inEntries inBlock)
    simp only [moves, step, within, Option.map_some, Option.filter, valid, if_true, atPlace,
      steps.prev (inEntries inBlock), bind, Except.bind]
    by_cases start : before.length + index = 0
    · obtain rfl : index = 0 := by omega
      simp [start, clamp, steps.invalid]
    · have back := blocked.clamp_eq steps (before.length + index - 1)
      have low : before.length + index - 1 < entries.length := by
        have := inEntries inBlock
        omega
      rw [WriteBuffer.inside, if_pos low] at back
      rw [if_neg start, back]
      by_cases first : index = 0
      · rw [if_neg (by omega)]
        simp [first, within]
      · have behind : before.length + index - 1 - before.length = index - 1 := by omega
        have inside : index - 1 < block.length := by omega
        rw [if_pos (by omega), behind]
        simp [first, within, WriteBuffer.inside, inside]
  · intro index inBlock
    have enough := steps.span (inEntries inBlock)
    have part : block.length ≤ entries.length := by
      rw [blocked.parts, List.length_append, List.length_append]
      omega
    simp only [moves, within, Option.map_some, Option.elim_some]
    exact Nat.le_trans part enough

/-- Steps in both directions do not leave the block, except to no entry. -/
theorem travel (blocked : Block rule group entries before block after)
    (steps : inner.Steps entries place) (openBucket : Bytes → Except Failure (Option ι))
    {motions : List Motion} (plain : ∀ motion ∈ motions, motion = .next ∨ motion = .prev)
    (at? : Option Nat) (inside : ∀ index ∈ at?, index < block.length) :
    ∃ to?, (∀ index ∈ to?, index < block.length) ∧
      (moves rule openBucket inner).travel motions (within group before place at?)
        = within group before place to? := by
  have inBlock := blocked.steps steps openBucket
  induction motions generalizing at? with
  | nil => exact ⟨at?, inside, rfl⟩
  | cons motion rest ih =>
    have plainRest : ∀ motion ∈ rest, motion = .next ∨ motion = .prev := fun motion member =>
      plain motion (List.mem_cons_of_mem _ member)
    obtain ⟨to?, low, moved⟩ : ∃ to?, (∀ index ∈ to?, index < block.length) ∧
        ((moves rule openBucket inner).move motion (within group before place at?)).toOption.getD
          (within group before place at?) = within group before place to? := by
      cases at? with
      | none => rcases plain motion List.mem_cons_self with rfl | rfl <;> exact ⟨none, by simp, rfl⟩
      | some index =>
        have here := inside index rfl
        rcases plain motion List.mem_cons_self with rfl | rfl
        · refine ⟨WriteBuffer.inside block (index + 1), ?_, ?_⟩
          · intro other found
            simp only [WriteBuffer.inside] at found
            split at found
            · next low => exact Option.some.inj found ▸ low
            · cases found
          · rw [Moves.move, inBlock.next here]
            rfl
        · refine ⟨if index = 0 then none else some (index - 1), ?_, ?_⟩
          · intro other found
            split at found
            · cases found
            · have same := Option.some.inj found
              omega
          · rw [Moves.move, inBlock.prev here]
            rfl
    obtain ⟨last?, lowLast, movedLast⟩ := ih plainRest to? low
    refine ⟨last?, lowLast, ?_⟩
    simp only [Moves.travel, List.foldl_cons] at movedLast ⊢
    rw [moved]
    exact movedLast

variable {target : Bytes} {front back : List Bytes}

/-- Nothing in front of the block is at or above a target of the group, unless the block is empty. -/
theorem reached (blocked : Block rule group entries before block after) (monotone : rule.Monotone)
    (readable : ∀ entry ∈ entries, HasKey HasTag entry)
    (sorted : KeyOrder.versioned.Sorted entries) (parts : entries = front ++ back)
    (split : KeyOrder.versioned.Splits target front back) (tagged : HasTag target)
    (grouped : rule.groupOf (userPart target) = .ok group) (early : front.length < before.length) :
    block = [] := by
  refine List.eq_nil_iff_forall_not_mem.mpr ?_
  intro last inBlock
  have low : front.length < entries.length := by
    rw [blocked.parts, List.length_append]
    omega
  have inBack : entries[front.length] ∈ back := by
    subst parts
    rw [List.getElem_append_right (Nat.le_refl _)]
    exact List.getElem_mem _
  have inBefore : entries[front.length] ∈ before := by
    simp only [blocked.parts, List.getElem_append_left early]
    exact List.getElem_mem early
  have lastIn : last ∈ entries := by
    rw [blocked.parts]
    simp [inBlock]
  obtain ⟨keyMiddle, cutMiddle, taggedMiddle⟩ := readable _ (List.getElem_mem low)
  obtain ⟨keyLast, cutLast, taggedLast⟩ := readable last lastIn
  -- The entry in front would stand between the target and an entry of its group.
  obtain ⟨ordering, answer, notLess⟩ := split.notBelow _ inBack
  rw [KeyOrder.compareEntryKey_eq _ cutMiddle] at answer
  have lower := KeyOrder.versioned_totalOn.swap taggedMiddle tagged answer
  have upper : KeyOrder.versioned.Below entries[front.length] last := by
    have ordered := sorted
    rw [KeyOrder.Sorted, blocked.parts] at ordered
    exact (List.pairwise_append.mp ordered).2.2 _ inBefore last (List.mem_append_left _ inBlock)
  rw [KeyOrder.Below, KeyOrder.compareEntries_eq _ cutLast, KeyOrder.compareEntryKey_eq _ cutMiddle]
    at upper
  have groupLast := blocked.inside last inBlock
  rw [groupOfEntry_eq cutLast taggedLast] at groupLast
  have groupMiddle := monotone.convex grouped groupLast
    (KeyOrder.userPart_le_of_notAbove tagged taggedMiddle (by
      rw [lower]
      cases ordering <;> simp_all))
    (KeyOrder.userPart_le_of_notAbove taggedMiddle taggedLast (by simp [upper]))
  obtain ⟨other, isOther, different⟩ := blocked.outside _ (List.mem_append_left _ inBefore)
  rw [groupOfEntry_eq cutMiddle taggedMiddle, groupMiddle] at isOther
  exact different (Except.ok.inj isOther).symm

/-- Seeking lands on the first entry of the block that is not below the target, wherever the cursor
was. -/
theorem seek_eq (blocked : Block rule group entries before block after) (monotone : rule.Monotone)
    (follows : inner.Follows KeyOrder.versioned entries place)
    (readable : ∀ entry ∈ entries, HasKey HasTag entry)
    (sorted : KeyOrder.versioned.Sorted entries) (parts : entries = front ++ back)
    (split : KeyOrder.versioned.Splits target front back) (tagged : HasTag target)
    (grouped : rule.groupOf (userPart target) = .ok group)
    {openBucket : Bytes → Except Failure (Option ι)}
    (opened : openBucket (userPart target) = .ok (some (place none))) (cursor : GroupCursor ι) :
    (moves rule openBucket inner).seek target cursor = .ok (within group before place
      (WriteBuffer.inside block (front.length - before.length))) := by
  have kept := blocked.clamp_eq follows.toSteps front.length
  have sought : (if before.length ≤ front.length then
      WriteBuffer.inside block (front.length - before.length) else none)
      = WriteBuffer.inside block (front.length - before.length) := by
    by_cases early : front.length < before.length
    · have none := blocked.reached monotone readable sorted parts split tagged grouped early
      rw [none, if_neg (by omega)]
      rfl
    · rw [if_pos (by omega)]
  rw [sought] at kept
  simp only [moves, userKeyOf_eq tagged, bind, Except.bind, grouped, opened,
    follows.seek _ parts split]
  exact kept

/-- What is shown from there on is what the list has of the group and not below the target. -/
theorem mem_sought (blocked : Block rule group entries before block after)
    (parts : entries = front ++ back) (split : KeyOrder.versioned.Splits target front back)
    (entry : Bytes) : entry ∈ block.drop (front.length - before.length) ↔
      entry ∈ entries ∧ groupOfEntry rule entry = .ok group ∧
        KeyOrder.versioned.compareEntryKey entry target ≠ .ok .lt := by
  let ofGroup : Bytes → Bool := fun entry => decide (groupOfEntry rule entry = .ok group)
  have outside : ∀ part : List Bytes, (∀ entry ∈ part, entry ∈ before ++ after) →
      part.filter ofGroup = [] := by
    intro part sub
    refine List.filter_eq_nil_iff.mpr ?_
    intro entry member
    obtain ⟨other, isOther, different⟩ := blocked.outside entry (sub entry member)
    simp [ofGroup, isOther, different]
  have inside : (block.drop (front.length - before.length)).filter ofGroup
      = block.drop (front.length - before.length) := by
    refine List.filter_eq_self.mpr ?_
    intro entry member
    simp [ofGroup, blocked.inside entry (List.mem_of_mem_drop member)]
  have rest : back.filter ofGroup = block.drop (front.length - before.length) := by
    have dropped : back = entries.drop front.length := by rw [parts, List.drop_left]
    rw [dropped, blocked.parts, List.drop_append, List.drop_append, List.filter_append,
      List.filter_append, outside (before.drop _) fun entry member =>
        List.mem_append_left _ (List.mem_of_mem_drop member), outside (after.drop _) fun entry member =>
        List.mem_append_right _ (List.mem_of_mem_drop member), inside, List.nil_append,
      List.append_nil]
  rw [← rest, List.mem_filter]
  constructor
  · rintro ⟨inBack, isOf⟩
    obtain ⟨ordering, answer, notLess⟩ := split.notBelow entry inBack
    exact ⟨by rw [parts]; exact List.mem_append_right _ inBack, by simpa [ofGroup] using isOf,
      by simpa [answer] using notLess⟩
  · rintro ⟨inEntries, isOf, notLess⟩
    refine ⟨?_, by simpa [ofGroup] using isOf⟩
    rcases List.mem_append.mp (parts ▸ inEntries) with inFront | inBack
    · exact absurd (split.below entry inFront) notLess
    · exact inBack

/-- What is shown on the way back is what the list has of the group and below the entry. -/
theorem mem_before (blocked : Block rule group entries before block after)
    (readable : ∀ entry ∈ entries, HasKey HasTag entry)
    (sorted : KeyOrder.versioned.Sorted entries) {index : Nat} (inBlock : index < block.length)
    (entry : Bytes) : entry ∈ block.take index ↔
      entry ∈ entries ∧ groupOfEntry rule entry = .ok group ∧
        KeyOrder.versioned.Below entry block[index] := by
  have total := KeyOrder.versioned_totalOn
  have inEntries : ∀ other ∈ block, other ∈ entries := by
    intro other member
    rw [blocked.parts]
    simp [member]
  have blockSorted : KeyOrder.versioned.Sorted block := by
    rw [KeyOrder.Sorted, blocked.parts] at sorted
    exact (List.pairwise_append.mp (List.pairwise_append.mp sorted).2.1).1
  have pieces : block = block.take index ++ block[index] :: block.drop (index + 1) := by
    rw [List.getElem_cons_drop, List.take_append_drop]
  have ordered := blockSorted
  rw [KeyOrder.Sorted, pieces] at ordered
  obtain ⟨_, sortedBack, across⟩ := List.pairwise_append.mp ordered
  have here := readable _ (inEntries _ (List.getElem_mem inBlock))
  constructor
  · intro member
    have inside := List.mem_of_mem_take member
    exact ⟨inEntries entry inside, blocked.inside entry inside,
      across entry member _ List.mem_cons_self⟩
  · rintro ⟨member, isOf, below⟩
    have inside : entry ∈ block := by
      rw [blocked.parts, List.mem_append, List.mem_append] at member
      rcases member with inFront | inside | inAfter
      · obtain ⟨other, isOther, different⟩ := blocked.outside entry (List.mem_append_left _ inFront)
        exact absurd (Except.ok.inj (isOther.symm.trans isOf)) different
      · exact inside
      · obtain ⟨other, isOther, different⟩ := blocked.outside entry (List.mem_append_right _ inAfter)
        exact absurd (Except.ok.inj (isOther.symm.trans isOf)) different
    rw [pieces, List.mem_append, List.mem_cons] at inside
    rcases inside with inFront | rfl | later
    · exact inFront
    · exact absurd below (total.below_irrefl here)
    · have above := (List.pairwise_cons.mp sortedBack).1 entry later
      exact absurd below (total.below_asymm here (readable entry member) above)

end Block

end GroupCursor

end WriteBuffer
