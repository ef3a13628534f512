import Mathlib
import WriteBuffer.Proofs.Arranging
import WriteBuffer.Proofs.Rows
import WriteBuffer.Store.Sparse
import WriteBuffer.Table.Placement

/-!
What hashed tables share. Every bucket holds the entries of its own user keys in order, on nodes
that no other bucket has, and all buckets together hold what the table took in (`Arranged`). An
entry that is put into its gap in one bucket is the only one added (`Arranged.insert`), and merging
what the buckets hold puts all entries in order (`Arranged.merged`).
-/
namespace WriteBuffer

namespace Sparse

variable {β : Type} {slots changed : Sparse β}

def keys (slots : Sparse β) : List Nat := slots.cells.map (·.1)

theorem nodup_keys (slots : Sparse β) : slots.keys.Nodup := by
  have ascending : slots.keys.Pairwise (· < ·) := List.pairwise_map.mpr slots.ascending
  exact ascending.imp Nat.ne_of_lt

theorem mem_keys {index : Nat} : index ∈ slots.keys ↔ (slots.get? index).isSome := by
  simp only [keys, get?, List.lookup_isSome_iff, List.mem_map, beq_iff_eq]
  constructor
  · rintro ⟨cell, member, same⟩
    exact ⟨cell, member, same.symm⟩
  · rintro ⟨cell, member, same⟩
    exact ⟨cell, member, same.symm⟩

theorem get?_of_mem {cell : Nat × β} (member : cell ∈ slots.cells) :
    slots.get? cell.1 = some cell.2 := by
  obtain ⟨before, after, parts⟩ := List.append_of_mem member
  refine List.lookup_eq_some_iff.mpr ⟨before, after, parts, ?_⟩
  intro other inFront
  have ascending := slots.ascending
  rw [parts] at ascending
  have less := (List.pairwise_append.mp ascending).2.2 other inFront cell List.mem_cons_self
  simpa using Nat.ne_of_gt less

/-- Filling one slot makes it the only new one. -/
theorem keys_perm {index : Nat} (filled : (changed.get? index).isSome)
    (others : ∀ other ≠ index, changed.get? other = slots.get? other) :
    changed.keys.Perm (if index ∈ slots.keys then slots.keys else index :: slots.keys) := by
  refine (List.perm_ext_iff_of_nodup changed.nodup_keys ?_).mpr ?_
  · split
    · exact slots.nodup_keys
    · next absent => exact List.nodup_cons.mpr ⟨absent, slots.nodup_keys⟩
  · intro other
    by_cases same : other = index
    · subst same
      simp only [mem_keys, filled, true_iff]
      split
      · next present => exact Sparse.mem_keys.mpr present
      · exact List.mem_cons_self
    · rw [mem_keys, others other same, ← mem_keys]
      split
      · exact Iff.rfl
      · simp [same]

end Sparse

/-- What the filled buckets of a table hold. -/
def contents {β : Type} (slots : Sparse β) (held : Nat → List Bytes) : List Bytes :=
  slots.keys.flatMap held

variable {β : Type} {slots changed : Sparse β} {held : Nat → List Bytes} {bucket : Nat}
  {entry : Bytes} {front back : List Bytes}

theorem mem_contents (vacant : ∀ other, slots.get? other = none → held other = []) :
    entry ∈ contents slots held ↔ ∃ bucket, entry ∈ held bucket := by
  rw [contents, List.mem_flatMap]
  constructor
  · rintro ⟨bucket, _, member⟩
    exact ⟨bucket, member⟩
  · rintro ⟨bucket, member⟩
    refine ⟨bucket, Sparse.mem_keys.mpr ?_, member⟩
    rw [Option.isSome_iff_ne_none]
    intro missing
    rw [vacant bucket missing] at member
    cases member

theorem contents_fill (vacant : ∀ other, slots.get? other = none → held other = [])
    (filled : (changed.get? bucket).isSome)
    (others : ∀ other ≠ bucket, changed.get? other = slots.get? other) :
    (contents changed held).Perm (contents slots held) := by
  refine ((Sparse.keys_perm filled others).flatMap_right held).trans ?_
  split
  · exact .refl _
  · next absent =>
    rw [Sparse.mem_keys, Bool.not_eq_true, Option.isSome_eq_false_iff, Option.isNone_iff_eq_none]
      at absent
    rw [List.flatMap_cons, vacant bucket absent, List.nil_append, contents]

/-- What was put into one bucket is the only entry added. -/
theorem contents_insert (vacant : ∀ other, slots.get? other = none → held other = [])
    (filled : (changed.get? bucket).isSome)
    (others : ∀ other ≠ bucket, changed.get? other = slots.get? other)
    (parts : held bucket = front ++ back) :
    (contents changed (Function.update held bucket (front ++ entry :: back))).Perm
      (entry :: contents slots held) := by
  have inKeys := Sparse.mem_keys.mpr filled
  have same := contents_fill vacant filled others
  have apart : ∀ other ∈ changed.keys.erase bucket,
      Function.update held bucket (front ++ entry :: back) other = held other := by
    intro other member
    refine Function.update_of_ne ?_ _ _
    exact ((changed.nodup_keys.mem_erase_iff).mp member).1
  have ofOthers := List.flatMap_congr apart
  have cut := List.perm_cons_erase inKeys
  have before := (cut.flatMap_right held).symm
  have after := cut.flatMap_right (Function.update held bucket (front ++ entry :: back))
  rw [List.flatMap_cons, parts] at before
  rw [List.flatMap_cons, Function.update_self, ofOthers] at after
  refine after.trans ?_
  rw [List.append_assoc, List.cons_append]
  refine List.perm_middle.trans (List.Perm.cons entry ?_)
  rw [← List.append_assoc]
  exact before.trans same

/-- Every bucket holds the entries of its own user keys in order, on rows of its own that are linked
as the table links them, and all of them together hold what was taken in. -/
structure Arranged (shelf : Shelf) (placement : Placement) (slots : Sparse β)
    (linked : Nat → List Row → Prop) (rows : Nat → List Row) (held : Nat → List Bytes)
    (taken : List Bytes) : Prop where
  reads : ∀ bucket, shelf.Reads (handlesOf (rows bucket)) (held bucket)
  sorted : ∀ bucket, shelf.order.Sorted (held bucket)
  disjoint : ∀ {bucket other}, bucket ≠ other → ∀ id ∈ ids (rows bucket), id ∉ ids (rows other)
  placed : ∀ bucket, ∀ entry ∈ held bucket, ∃ userKey, entryUserKey entry = .ok userKey ∧
    placement.bucketOf slots.size userKey = .ok bucket
  linked : ∀ bucket, linked bucket (rows bucket)
  vacant : ∀ bucket, slots.get? bucket = none → held bucket = []
  all : (contents slots held).Perm taken

namespace Arranged

variable {shelf new : Shelf} {placement : Placement} {linked relinked : Nat → List Row → Prop}
  {rows : Nat → List Row} {taken : List Bytes} {first rest : List Row} {id : NodeId}
  {handle : Handle} {userKey : Bytes} {keys : Bytes → Prop}

theorem nothing (shelf : Shelf) (placement : Placement) (count : Nat)
    (linked : ∀ bucket, relinked bucket []) :
    Arranged shelf placement (Sparse.empty count : Sparse β) relinked (fun _ => []) (fun _ => [])
      [] where
  reads _ := rfl
  sorted _ := .nil
  disjoint _ _ member := by cases member
  placed _ _ member := by cases member
  linked := linked
  vacant _ _ := rfl
  all := .refl _

theorem keeps (arranged : Arranged shelf placement slots linked rows held taken)
    (order : new.order = shelf.order) (keeps : shelf.arena.Keeps new.arena) :
    Arranged new placement slots linked rows held taken where
  reads bucket := (arranged.reads bucket).keeps keeps
  sorted bucket := order ▸ arranged.sorted bucket
  disjoint := arranged.disjoint
  placed := arranged.placed
  linked := arranged.linked
  vacant := arranged.vacant
  all := arranged.all

theorem mem_iff (arranged : Arranged shelf placement slots linked rows held taken) :
    entry ∈ taken ↔ ∃ bucket, entry ∈ held bucket := by
  rw [← arranged.all.mem_iff]
  exact mem_contents arranged.vacant

/-- All entries of a user key are in its bucket. -/
theorem mem_bucket (arranged : Arranged shelf placement slots linked rows held taken)
    (place : placement.bucketOf slots.size userKey = .ok bucket) (member : entry ∈ taken)
    (cut : entryUserKey entry = .ok userKey) : entry ∈ held bucket := by
  obtain ⟨other, inOther⟩ := arranged.mem_iff.mp member
  obtain ⟨found, cutFound, placed⟩ := arranged.placed other entry inOther
  obtain rfl := Except.ok.inj (cutFound.symm.trans cut)
  obtain rfl := Except.ok.inj (placed.symm.trans place)
  exact inOther

/-- What is true of entries of a user key only is true of one of its bucket if it is of any. -/
theorem exists_iff (arranged : Arranged shelf placement slots linked rows held taken)
    (place : placement.bucketOf slots.size userKey = .ok bucket) {p : Bytes → Prop}
    (own : ∀ entry ∈ taken, p entry → entryUserKey entry = .ok userKey) :
    (∃ entry ∈ held bucket, p entry) ↔ ∃ entry ∈ taken, p entry := by
  constructor
  · rintro ⟨entry, member, holds⟩
    exact ⟨entry, arranged.mem_iff.mpr ⟨bucket, member⟩, holds⟩
  · rintro ⟨entry, member, holds⟩
    exact ⟨entry, arranged.mem_bucket place member (own entry member holds), holds⟩

theorem rows_vacant (arranged : Arranged shelf placement slots linked rows held taken)
    (missing : slots.get? bucket = none) : rows bucket = [] := by
  have size := (arranged.reads bucket).length_eq
  rw [arranged.vacant bucket missing] at size
  simpa using size

/-- A bucket may be filled with what links its rows. -/
theorem fill (arranged : Arranged shelf placement slots linked rows held taken)
    (size : changed.size = slots.size) (filled : (changed.get? bucket).isSome)
    (others : ∀ other ≠ bucket, changed.get? other = slots.get? other)
    (linkedNow : ∀ bucket, relinked bucket (rows bucket)) :
    Arranged shelf placement changed relinked rows held taken where
  reads := arranged.reads
  sorted := arranged.sorted
  disjoint := arranged.disjoint
  placed := by
    rw [size]
    exact arranged.placed
  linked := linkedNow
  vacant := by
    intro other missing
    by_cases same : other = bucket
    · subst same
      simp [missing] at filled
    · exact arranged.vacant other (others other same ▸ missing)
  all := (contents_fill arranged.vacant filled others).trans arranged.all

theorem disjoint_update (arranged : Arranged shelf placement slots linked rows held taken)
    {grown : List Row} (apart : ∀ id ∈ ids grown, ∀ other ≠ bucket, id ∉ ids (rows other))
    {one other : Nat} (different : one ≠ other) :
    ∀ id ∈ ids (Function.update rows bucket grown one),
      id ∉ ids (Function.update rows bucket grown other) :=
  pairwise_update (R := fun _ _ one other => ∀ id ∈ ids one, id ∉ ids other)
    (fun apart id inOther inOne => apart id inOne inOther)
    (fun other different id inGrown => apart id inGrown other different) arranged.disjoint different

/-- An entry is put into its gap in its bucket, on a node that is new to all buckets. -/
theorem insert (arranged : Arranged shelf placement slots linked rows held taken)
    (gap : shelf.Gap entry (rows bucket) (held bucket) first rest front back)
    (above : ∀ other ∈ back, shelf.order.Below entry other)
    (sameOrder : new.order = shelf.order) (keeps : shelf.arena.Keeps new.arena)
    (read : new.arena.get handle = .ok entry) (fresh : ∀ other, id ∉ ids (rows other))
    (cut : entryUserKey entry = .ok userKey)
    (place : placement.bucketOf slots.size userKey = .ok bucket)
    (size : changed.size = slots.size) (filled : (changed.get? bucket).isSome)
    (others : ∀ other ≠ bucket, changed.get? other = slots.get? other)
    (linkedHere : relinked bucket (first ++ (id, handle) :: rest))
    (linkedThere : ∀ other ≠ bucket, relinked other (rows other)) :
    Arranged new placement changed relinked
      (Function.update rows bucket (first ++ (id, handle) :: rest))
      (Function.update held bucket (front ++ entry :: back)) (taken ++ [entry]) where
  reads := by
    intro other
    by_cases same : other = bucket
    · subst same
      rw [Function.update_self, Function.update_self]
      exact gap.filled keeps read
    · rw [Function.update_of_ne same, Function.update_of_ne same]
      exact (arranged.reads other).keeps keeps
  sorted := by
    rw [sameOrder]
    exact (Function.forall_update_iff held fun _ entries => shelf.order.Sorted entries).mpr
      ⟨gap.sorted (arranged.sorted bucket) above, fun other _ => arranged.sorted other⟩
  disjoint := by
    refine arranged.disjoint_update ?_
    intro row member other different
    simp only [ids, List.map_append, List.map_cons, List.mem_append, List.mem_cons] at member
    rcases member with inFirst | rfl | inRest
    · exact arranged.disjoint (Ne.symm different) row (by rw [gap.rows]; simp [inFirst])
    · exact fresh other
    · exact arranged.disjoint (Ne.symm different) row (by rw [gap.rows]; simp [inRest])
  placed := by
    rw [size]
    refine (Function.forall_update_iff held fun other entries => ∀ member ∈ entries,
      ∃ userKey, entryUserKey member = .ok userKey ∧
        placement.bucketOf slots.size userKey = .ok other).mpr
          ⟨?_, fun other _ => arranged.placed other⟩
    intro member inBucket
    rcases List.mem_append.mp inBucket with inFront | inBack
    · exact arranged.placed bucket member (by rw [gap.entries]; simp [inFront])
    · rcases List.mem_cons.mp inBack with rfl | inBack
      · exact ⟨userKey, cut, place⟩
      · exact arranged.placed bucket member (by rw [gap.entries]; simp [inBack])
  linked := (Function.forall_update_iff rows relinked).mpr ⟨linkedHere, linkedThere⟩
  vacant := by
    intro other missing
    by_cases same : other = bucket
    · subst same
      simp [missing] at filled
    · rw [Function.update_of_ne same]
      exact arranged.vacant other (others other same ▸ missing)
  all := by
    refine (contents_insert arranged.vacant filled others gap.entries).trans ?_
    exact (arranged.all.cons entry).trans (List.perm_append_singleton ..).symm

/-- Entries that tie only if they have the same user key do not tie at all, since those of one user key
share a bucket. -/
theorem untied (arranged : Arranged shelf placement slots linked rows held taken)
    (total : shelf.order.TotalOn keys) (readable : ∀ entry ∈ taken, HasKey keys entry)
    (sameUser : ∀ a ∈ taken, ∀ b ∈ taken, shelf.order.Ties a b → entryUserKey a = entryUserKey b) :
    shelf.order.Untied taken := by
  refine total.untied_perm (fun entry member => readable entry (arranged.all.mem_iff.mp member)) ?_
    arranged.all.symm
  refine List.pairwise_flatMap.mpr ⟨?_, ?_⟩
  · intro bucket _
    refine (arranged.sorted bucket).imp ?_
    intro a b below ties
    cases below.symm.trans ties
  · refine slots.nodup_keys.imp ?_
    intro one other different a inOne b inOther ties
    obtain ⟨userA, cutA, placeA⟩ := arranged.placed one a inOne
    obtain ⟨userB, cutB, placeB⟩ := arranged.placed other b inOther
    have same := sameUser a (arranged.mem_iff.mpr ⟨one, inOne⟩) b
      (arranged.mem_iff.mpr ⟨other, inOther⟩) ties
    obtain rfl := Except.ok.inj (cutA.symm.trans (same.trans cutB))
    exact different (Except.ok.inj (placeA.symm.trans placeB))

/-- The runs of the filled buckets, merged, name all entries in order. -/
theorem merged (arranged : Arranged shelf placement slots linked rows held taken)
    (total : shelf.order.TotalOn keys) (readable : ∀ entry ∈ taken, HasKey keys entry)
    (untied : shelf.order.Untied taken) :
    ∃ handles entries,
      mergeRuns shelf.compareHandles (slots.keys.map fun bucket => handlesOf (rows bucket))
        = .ok handles ∧
      shelf.Reads handles entries ∧ shelf.order.Sorted entries ∧ entries.Perm taken := by
  have keyed : ∀ entry ∈ contents slots held, HasKey keys entry := fun entry member =>
    readable entry (arranged.all.mem_iff.mp member)
  have apart := total.untied_perm readable untied arranged.all
  have reads : shelf.Reads (slots.keys.map fun bucket => handlesOf (rows bucket)).flatten
      (contents slots held) := by
    rw [Shelf.Reads, contents, ← List.flatMap_def, List.map_flatMap, List.map_flatMap]
    refine List.flatMap_congr ?_
    intro bucket _
    exact arranged.reads bucket
  obtain ⟨handles, entries, done, readEntries, sorted, perm⟩ := reads.merges total keyed apart (by
    intro run member
    obtain ⟨bucket, _, rfl⟩ := List.mem_map.mp member
    exact (arranged.reads bucket).sorted_iff.mpr (arranged.sorted bucket))
  exact ⟨handles, entries, done, readEntries, sorted, perm.trans arranged.all⟩

end Arranged

end WriteBuffer
