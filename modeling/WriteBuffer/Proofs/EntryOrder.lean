import Mathlib
import WriteBuffer.KeyOrder

/-!
What a key order has to obey for a table to keep its entries in order. An order is total on a class
of internal keys if it answers every question about them and ranks them in a total preorder
(`KeyOrder.TotalOn`). In a list of entries that such an order sorts, every target splits the entries
into those below it and those that are not (`KeyOrder.TotalOn.splits`).
-/
namespace WriteBuffer

/-- Bytes that spell an internal key. -/
def IsInternalKey (bytes : Bytes) : Prop := ∃ key, InternalKey.decode bytes = .ok key

/-- Bytes that have room for a tag, whatever stands in it. -/
def HasTag (bytes : Bytes) : Prop := tagSize ≤ bytes.length

/-- An entry whose internal key can be cut out and is of a class. -/
def HasKey (keys : Bytes → Prop) (entry : Bytes) : Prop :=
  ∃ key, entryKey entry = .ok key ∧ keys key

theorem HasKey.mono {keys more : Bytes → Prop} {entry : Bytes} (hasKey : HasKey keys entry)
    (sub : ∀ key, keys key → more key) : HasKey more entry := by
  obtain ⟨key, cut, held⟩ := hasKey
  exact ⟨key, cut, sub key held⟩

namespace KeyOrder

/-- An order that answers every question about the keys of a class, and ranks them in a total
preorder. -/
structure TotalOn (order : KeyOrder) (keys : Bytes → Prop) : Prop where
  answers : ∀ {a b}, keys a → keys b → ∃ ordering, order.compareKeys a b = .ok ordering
  swap : ∀ {a b ordering}, keys a → keys b → order.compareKeys a b = .ok ordering →
    order.compareKeys b a = .ok ordering.swap
  trans : ∀ {a b c}, keys a → keys b → keys c → order.compareKeys a b ≠ .ok .gt →
    order.compareKeys b c ≠ .ok .gt → order.compareKeys a c ≠ .ok .gt

/-- An entry comes before another one. -/
def Below (order : KeyOrder) (a b : Bytes) : Prop := order.compareEntries a b = .ok .lt

/-- Two entries have keys that the order does not tell apart. -/
def Ties (order : KeyOrder) (a b : Bytes) : Prop := order.compareEntries a b = .ok .eq

instance (order : KeyOrder) (a b : Bytes) : Decidable (order.Below a b) :=
  inferInstanceAs (Decidable (_ = _))

instance (order : KeyOrder) (a b : Bytes) : Decidable (order.Ties a b) :=
  inferInstanceAs (Decidable (_ = _))

/-- Entries in strictly ascending order. -/
def Sorted (order : KeyOrder) (entries : List Bytes) : Prop := entries.Pairwise order.Below

/-- Entries that the order tells apart, each from all others. -/
def Untied (order : KeyOrder) (entries : List Bytes) : Prop :=
  entries.Pairwise fun a b => ¬ order.Ties a b

/-- The entries in front are below a target and those at the back are not. -/
structure Splits (order : KeyOrder) (target : Bytes) (front back : List Bytes) : Prop where
  below : ∀ entry ∈ front, order.compareEntryKey entry target = .ok .lt
  notBelow : ∀ entry ∈ back,
    ∃ ordering, order.compareEntryKey entry target = .ok ordering ∧ ordering ≠ .lt

theorem Sorted.untied {order : KeyOrder} {entries : List Bytes} (sorted : order.Sorted entries) :
    order.Untied entries := by
  refine sorted.imp ?_
  intro a b below ties
  cases below.symm.trans ties

theorem compareEntryKey_eq (order : KeyOrder) {entry key : Bytes} (cut : entryKey entry = .ok key)
    (target : Bytes) : order.compareEntryKey entry target = order.compareKeys key target := by
  rw [compareEntryKey, cut]
  rfl

theorem compareEntries_eq (order : KeyOrder) {entry key : Bytes} (cut : entryKey entry = .ok key)
    (other : Bytes) : order.compareEntries other entry = order.compareEntryKey other key := by
  rw [compareEntries, compareEntryKey, cut]
  rfl

namespace TotalOn

variable {order : KeyOrder} {keys : Bytes → Prop} (total : order.TotalOn keys)
include total

theorem mono {fewer : Bytes → Prop} (sub : ∀ key, fewer key → keys key) : order.TotalOn fewer where
  answers ha hb := total.answers (sub _ ha) (sub _ hb)
  swap ha hb := total.swap (sub _ ha) (sub _ hb)
  trans ha hb hc := total.trans (sub _ ha) (sub _ hb) (sub _ hc)

theorem compare_self {key : Bytes} (held : keys key) : order.compareKeys key key = .ok .eq := by
  obtain ⟨ordering, answer⟩ := total.answers held held
  have swapped := total.swap held held answer
  cases ordering with
  | eq => exact answer
  | lt | gt => simp [answer] at swapped

theorem lt_trans {a b c : Bytes} (ha : keys a) (hb : keys b) (hc : keys c)
    (ab : order.compareKeys a b = .ok .lt) (bc : order.compareKeys b c = .ok .lt) :
    order.compareKeys a c = .ok .lt := by
  obtain ⟨ordering, answer⟩ := total.answers ha hc
  have notAbove := total.trans ha hb hc (by simp [ab]) (by simp [bc])
  cases ordering with
  | lt => exact answer
  | gt => exact absurd answer notAbove
  | eq =>
    -- If `a` and `c` tied, `b` would stand both above `a` and not above it.
    have ca := total.swap ha hc answer
    have ba := total.swap ha hb ab
    exact absurd ba (total.trans hb hc ha (by simp [bc]) (by simp [ca]))

theorem below_trans {a b c : Bytes} (ha : HasKey keys a) (hb : HasKey keys b) (hc : HasKey keys c)
    (ab : order.Below a b) (bc : order.Below b c) : order.Below a c := by
  obtain ⟨ka, cutA, heldA⟩ := ha
  obtain ⟨kb, cutB, heldB⟩ := hb
  obtain ⟨kc, cutC, heldC⟩ := hc
  simp only [Below, compareEntries_eq order cutB, compareEntries_eq order cutC,
    compareEntryKey_eq order cutA, compareEntryKey_eq order cutB] at ab bc ⊢
  exact total.lt_trans heldA heldB heldC ab bc

theorem below_irrefl {a : Bytes} (ha : HasKey keys a) : ¬ order.Below a a := by
  obtain ⟨key, cut, held⟩ := ha
  simp [Below, compareEntries_eq order cut, compareEntryKey_eq order cut, total.compare_self held]

theorem ties_self {a : Bytes} (ha : HasKey keys a) : order.Ties a a := by
  obtain ⟨key, cut, held⟩ := ha
  simp [Ties, compareEntries_eq order cut, compareEntryKey_eq order cut, total.compare_self held]

theorem compareEntries_swap {a b : Bytes} {ordering : Ordering} (ha : HasKey keys a)
    (hb : HasKey keys b) (answer : order.compareEntries a b = .ok ordering) :
    order.compareEntries b a = .ok ordering.swap := by
  obtain ⟨ka, cutA, heldA⟩ := ha
  obtain ⟨kb, cutB, heldB⟩ := hb
  rw [compareEntries_eq order cutB, compareEntryKey_eq order cutA] at answer
  rw [compareEntries_eq order cutA, compareEntryKey_eq order cutB]
  exact total.swap heldA heldB answer

theorem below_or_ties_or_above {a b : Bytes} (ha : HasKey keys a) (hb : HasKey keys b) :
    order.Below a b ∨ order.Ties a b ∨ order.Below b a := by
  obtain ⟨ka, cutA, heldA⟩ := ha
  obtain ⟨kb, cutB, heldB⟩ := hb
  obtain ⟨ordering, answer⟩ := total.answers heldA heldB
  have swapped := total.swap heldA heldB answer
  rw [Below, Ties, Below, compareEntries_eq order cutB, compareEntryKey_eq order cutA,
    compareEntries_eq order cutA, compareEntryKey_eq order cutB, answer, swapped]
  cases ordering <;> simp

theorem ties_symm {a b : Bytes} (ha : HasKey keys a) (hb : HasKey keys b)
    (ties : order.Ties a b) : order.Ties b a :=
  total.compareEntries_swap ha hb ties

theorem untied_perm {a b : List Bytes} (readable : ∀ entry ∈ a, HasKey keys entry)
    (untied : order.Untied a) (perm : b.Perm a) : order.Untied b := by
  have both : a.Pairwise fun x y => ¬ order.Ties x y ∧ ¬ order.Ties y x := by
    refine untied.imp_of_mem ?_
    intro x y inX inY different
    exact ⟨different, fun ties =>
      different (total.ties_symm (readable y inY) (readable x inX) ties)⟩
  exact ((perm.pairwise_iff And.symm).mpr both).imp And.left

theorem below_asymm {a b : Bytes} (ha : HasKey keys a) (hb : HasKey keys b)
    (ab : order.Below a b) : ¬ order.Below b a :=
  fun ba => total.below_irrefl ha (total.below_trans ha hb ha ab ba)

/-- A target that is a key splits every sorted list of entries. -/
theorem splits {target : Bytes} (held : keys target) {entries : List Bytes}
    (readable : ∀ entry ∈ entries, HasKey keys entry) (sorted : order.Sorted entries) :
    ∃ front back, entries = front ++ back ∧ order.Splits target front back := by
  induction entries with
  | nil => exact ⟨[], [], rfl, by simp, by simp⟩
  | cons first rest ih =>
    obtain ⟨above, sorted⟩ := List.pairwise_cons.mp sorted
    obtain ⟨front, back, rfl, split⟩ :=
      ih (fun entry member => readable entry (List.mem_cons_of_mem _ member)) sorted
    obtain ⟨key, cut, heldFirst⟩ := readable first List.mem_cons_self
    obtain ⟨ordering, answer⟩ := total.answers heldFirst held
    rw [← compareEntryKey_eq order cut] at answer
    by_cases below : ordering = .lt
    · refine ⟨first :: front, back, rfl, ?_, split.notBelow⟩
      intro entry member
      rcases List.mem_cons.mp member with same | later
      · rw [same, answer, below]
      · exact split.below entry later
    · -- Nothing after an entry that is not below the target is below it.
      refine ⟨[], first :: (front ++ back), rfl, by simp, ?_⟩
      intro entry member
      rcases List.mem_cons.mp member with same | later
      · exact ⟨ordering, same ▸ answer, below⟩
      · obtain ⟨other, cutOther, heldOther⟩ := readable entry member
        obtain ⟨laterOrdering, laterAnswer⟩ := total.answers heldOther held
        refine ⟨laterOrdering, by rw [compareEntryKey_eq order cutOther, laterAnswer], ?_⟩
        rintro rfl
        have firstBelow := above entry later
        rw [Below, compareEntries_eq order cutOther, compareEntryKey_eq order cut] at firstBelow
        have contrary := total.lt_trans heldFirst heldOther held firstBelow laterAnswer
        rw [compareEntryKey_eq order cut, contrary] at answer
        exact below (Except.ok.inj answer).symm

/-- An entry that ties with none of a sorted list has a place in it. -/
theorem ties_or_parts {entry key : Bytes} (cut : entryKey entry = .ok key) (held : keys key)
    {entries : List Bytes} (readable : ∀ other ∈ entries, HasKey keys other)
    (sorted : order.Sorted entries) :
    ∃ front back, entries = front ++ back ∧ order.Splits key front back ∧
      (∀ other ∈ front, order.Below other entry) ∧
      ((∃ other ∈ back.head?, order.Ties other entry) ∨ ∀ other ∈ back, order.Below entry other) := by
  obtain ⟨front, back, rfl, split⟩ := total.splits held readable sorted
  have hasKey : HasKey keys entry := ⟨key, cut, held⟩
  refine ⟨front, back, rfl, split, ?_, ?_⟩
  · intro other member
    rw [Below, compareEntries_eq order cut]
    exact split.below other member
  · cases back with
    | nil => exact .inr (by simp)
    | cons first rest =>
      have firstKey := readable first (by simp)
      obtain ⟨ordering, answer, notLess⟩ := split.notBelow first List.mem_cons_self
      rw [← compareEntries_eq order cut] at answer
      have swapped := total.compareEntries_swap firstKey hasKey answer
      cases ordering with
      | lt => exact absurd rfl notLess
      | eq => exact .inl ⟨first, rfl, answer⟩
      | gt =>
        -- Everything behind the first entry above is above as well.
        refine .inr ?_
        intro other member
        rcases List.mem_cons.mp member with same | later
        · exact same ▸ swapped
        · have sortedBack := (List.pairwise_append.mp sorted).2.1
          have above := (List.pairwise_cons.mp sortedBack).1 other later
          exact total.below_trans hasKey firstKey (readable other (by simp [later])) swapped above

/-- An entry of a sorted list splits it in front of itself. -/
theorem splits_at {entry key : Bytes} (cut : entryKey entry = .ok key) {front back : List Bytes}
    (readable : ∀ other ∈ front ++ entry :: back, HasKey keys other)
    (sorted : order.Sorted (front ++ entry :: back)) :
    order.Splits key front (entry :: back) := by
  have hasKey := readable entry (by simp)
  obtain ⟨_, sortedBack, across⟩ := List.pairwise_append.mp sorted
  constructor
  · intro other member
    rw [← compareEntries_eq order cut]
    exact across other member entry List.mem_cons_self
  · intro other member
    rw [← compareEntries_eq order cut]
    rcases List.mem_cons.mp member with same | later
    · exact ⟨.eq, by rw [same]; exact total.ties_self hasKey, by decide⟩
    · have above := (List.pairwise_cons.mp sortedBack).1 other later
      exact ⟨.gt, total.compareEntries_swap hasKey (readable other (by simp [later])) above,
        by decide⟩

/-- Behind an entry that is not below a target, all entries are above the target. -/
theorem above_rest {target first : Bytes} {rest : List Bytes} {ordering : Ordering}
    (held : keys target) (readable : ∀ other ∈ first :: rest, HasKey keys other)
    (sorted : order.Sorted (first :: rest))
    (answer : order.compareEntryKey first target = .ok ordering) (notLess : ordering ≠ .lt) :
    ∀ entry ∈ rest, order.compareEntryKey entry target = .ok .gt := by
  intro entry later
  have below := (List.pairwise_cons.mp sorted).1 entry later
  obtain ⟨key, cut, heldFirst⟩ := readable first List.mem_cons_self
  obtain ⟨other, cutOther, heldOther⟩ := readable entry (List.mem_cons_of_mem _ later)
  rw [Below, compareEntries_eq order cutOther, compareEntryKey_eq order cut] at below
  rw [compareEntryKey_eq order cut] at answer
  rw [compareEntryKey_eq order cutOther]
  obtain ⟨laterOrdering, laterAnswer⟩ := total.answers heldOther held
  have back := total.swap heldFirst held answer
  by_contra notAbove
  -- Otherwise the entry would not be above the first one, since the target is not.
  have notAboveFirst := total.trans heldOther held heldFirst notAbove (by
    rw [back]
    cases ordering <;> simp at notLess ⊢)
  exact notAboveFirst (total.swap heldFirst heldOther below)

/-- Of sorted entries that a target splits, only the first at the back may be equal to it. -/
theorem exists_eq_iff {target : Bytes} {front back : List Bytes} (held : keys target)
    (readable : ∀ other ∈ front ++ back, HasKey keys other) (sorted : order.Sorted (front ++ back))
    (split : order.Splits target front back) :
    (∃ entry ∈ front ++ back, order.compareEntryKey entry target = .ok .eq) ↔
      ∃ entry ∈ back.head?, order.compareEntryKey entry target = .ok .eq := by
  constructor
  · rintro ⟨entry, member, equal⟩
    rcases List.mem_append.mp member with inFront | inBack
    · simp [split.below entry inFront] at equal
    · cases back with
      | nil => cases inBack
      | cons first rest =>
        rcases List.mem_cons.mp inBack with rfl | later
        · exact ⟨entry, rfl, equal⟩
        · obtain ⟨ordering, answer, notLess⟩ := split.notBelow first List.mem_cons_self
          have above := total.above_rest held
            (fun other member => readable other (List.mem_append_right _ member))
            (List.pairwise_append.mp sorted).2.1 answer notLess entry later
          simp [above] at equal
  · rintro ⟨entry, first, equal⟩
    exact ⟨entry, List.mem_append_right _ (List.mem_of_mem_head? first), equal⟩

/-- Two strictly ascending lists with the same members are the same list. -/
theorem sorted_ext {a b : List Bytes} (readable : ∀ entry ∈ a, HasKey keys entry)
    (sortedA : order.Sorted a) (sortedB : order.Sorted b) (same : ∀ entry, entry ∈ a ↔ entry ∈ b) :
    a = b := by
  have irrefl : ∀ {entries : List Bytes}, order.Sorted entries →
      (∀ entry ∈ entries, HasKey keys entry) → entries.Nodup := by
    intro entries sorted readable
    refine sorted.imp_of_mem ?_
    intro x y hx _ below equal
    exact total.below_irrefl (readable x hx) (equal ▸ below)
  have readableB : ∀ entry ∈ b, HasKey keys entry := fun entry member =>
    readable entry ((same entry).mpr member)
  have perm : a.Perm b :=
    (List.perm_ext_iff_of_nodup (irrefl sortedA readable) (irrefl sortedB readableB)).mpr same
  refine perm.eq_of_pairwise ?_ sortedA sortedB
  intro x y hx hy xy yx
  exact absurd yx (total.below_asymm (readable x hx) (readableB y hy) xy)

end TotalOn

end KeyOrder

end WriteBuffer
