import Mathlib
import WriteBuffer.Proofs.Cursor.Indexing
import WriteBuffer.Proofs.GroupScans
import WriteBuffer.Proofs.Lists
import WriteBuffer.Proofs.Scans

/-!
Cursors of different kinds over the same entries. What a table hands out over all its entries
(`MemTable.opened_agrees`), a cursor along a skip list or along the chain of a bucket
(`MemTable.list_agrees`) and one over sorted handles (`RunCursor.sorted_agrees`) each follow the
entries in order, and entries stand in one order only. So all of these cursors answer alike, step by
step, as an index that moves over the sorted list (`MemTable.cursors_agree`).
-/
namespace WriteBuffer

variable {entries : List Bytes}

section Sorted

variable (readable : ∀ entry ∈ entries, HasKey HasTag entry)
  (sorted : KeyOrder.versioned.Sorted entries)
include readable sorted

/-- A cursor that follows the same entries in order follows the same list, and so agrees with an index
that moves over it. -/
theorem Moves.Follows.agrees_of_same {ι : Type} {moves : Moves ι} {found : List Bytes}
    {place : Option Nat → ι} (follows : moves.Follows .versioned found place)
    (inOrder : KeyOrder.versioned.Sorted found) (same : ∀ entry, entry ∈ found ↔ entry ∈ entries) :
    moves.Agrees (place none) entries := by
  obtain rfl := KeyOrder.versioned_totalOn.sorted_ext readable sorted inOrder fun entry =>
    (same entry).symm
  exact follows.agrees readable sorted

/-- A cursor over handles of some entries, put in order, agrees with an index over these entries. -/
theorem RunCursor.sorted_agrees {shelf : Shelf} {handles : List Handle} {stored : List Bytes}
    (ordered : shelf.order = .versioned) (reads : shelf.Reads handles stored)
    (perm : stored.Perm entries) :
    ∃ inOrder, sortStable shelf.compareHandles handles = .ok inOrder ∧
      (RunCursor.moves shelf).Agrees { handles := inOrder } entries := by
  have total : shelf.order.TotalOn HasTag := ordered ▸ KeyOrder.versioned_totalOn
  have untied : shelf.order.Untied stored :=
    total.untied_perm readable (ordered ▸ sorted.untied) perm
  obtain ⟨inOrder, arranged, done, readsInOrder, sortedArranged, permArranged⟩ :=
    reads.sorts total (fun entry member => readable entry (perm.mem_iff.mp member)) untied
  refine ⟨inOrder, done, ?_⟩
  have follows := RunCursor.follows readsInOrder
  rw [ordered] at follows sortedArranged
  exact follows.agrees_of_same readable sorted sortedArranged fun entry =>
    (permArranged.trans perm).mem_iff

namespace MemTable

variable {table : MemTable} (fresh : Fresh .versioned table) (operations : List Operation)
include fresh

/-- What a table hands out over all that it accepted agrees with an index over these entries. -/
theorem opened_agrees (perm : (accepted table operations).Perm entries) :
    ∃ now cursor, (table.run operations).openCursor .all = (now, .ok cursor) ∧
      now.moves.Agrees cursor entries := by
  have total := KeyOrder.versioned_totalOn
  have readableNow : ∀ entry ∈ accepted table operations, HasKey HasTag entry :=
    fun entry member => readable entry (perm.mem_iff.mp member)
  have untied := total.untied_perm readable sorted.untied perm
  obtain ⟨found, place, opened, follows, inOrder, permFound⟩ :=
    (run_holds fresh total operations readableNow fun _ => untied).opensAll total readableNow untied
  exact ⟨_, _, Prod.ext rfl opened, follows.agrees_of_same readable sorted inOrder fun entry =>
    (permFound.trans perm).mem_iff⟩

/-- A cursor along a list of a table agrees with an index over the entries that the list is for. -/
theorem list_agrees (linked : table.kind ≠ .vector) {bucket : Nat}
    (exactly : ∀ entry, entry ∈ accepted table operations ∧ Covers table.placing bucket entry ↔
      entry ∈ entries) :
    (table.run operations).moves.Agrees (.list { bucket }) entries := by
  have total := KeyOrder.versioned_totalOn
  have readableNow : ∀ entry ∈ accepted table operations, HasKey HasTag entry := by
    cases placed : table.placing with
    | some placing => exact accepted_hasTag operations (by simp [placed])
    | none =>
      -- A table without buckets has one list, which is for all its entries.
      intro entry member
      refine readable entry ((exactly entry).mp ⟨member, ?_⟩)
      rw [placed]
      rintro _ _ ⟨⟩
  have holds := run_holds fresh total operations readableNow fun isVector => absurd isVector linked
  obtain ⟨rows, found, lists⟩ := holds.lists (by rwa [kind_run]) bucket
  exact (lists.follows total readableNow).agrees_of_same readable sorted lists.sorted fun entry =>
    lists.mem_iff.trans (exactly entry)

end MemTable

end Sorted

namespace MemTable

variable {taken : List Bytes}

/-- Cursors over well-formed entries that the versioned order tells apart all answer as an index that
moves over the entries in order: those that tables hand out over all that they accepted, those along a
skip list of the entries or along a bucket that holds them, those over their handles put in order, and
the one over nothing if there are none. -/
theorem cursors_agree (wellFormed : ∀ entry ∈ taken, WellFormed entry)
    (untied : KeyOrder.versioned.Untied taken) :
    ∃ entries, entries.Perm taken ∧ KeyOrder.versioned.Sorted entries ∧
      (∀ {table} operations, Fresh .versioned table → (accepted table operations).Perm taken →
        ∃ now cursor, (table.run operations).openCursor .all = (now, .ok cursor) ∧
          now.moves.Agrees cursor entries) ∧
      (∀ {table} operations bucket, Fresh .versioned table → table.kind ≠ .vector →
        (∀ entry, entry ∈ accepted table operations ∧ Covers table.placing bucket entry ↔
          entry ∈ taken) →
        (table.run operations).moves.Agrees (.list { bucket }) entries) ∧
      (∀ {shelf handles stored}, shelf.order = .versioned → shelf.Reads handles stored →
        stored.Perm taken → ∃ inOrder, sortStable shelf.compareHandles handles = .ok inOrder ∧
          (RunCursor.moves shelf).Agrees { handles := inOrder } entries) ∧
      (taken = [] → Moves.ofNothing.Agrees () entries) := by
  have known : ∀ entry ∈ taken, HasKey HasTag entry := fun entry member =>
    (wellFormed entry member).hasTag
  obtain ⟨entries, perm, sorted⟩ := KeyOrder.versioned_totalOn.exists_sorted known untied
  have readable : ∀ entry ∈ entries, HasKey HasTag entry := fun entry member =>
    known entry (perm.mem_iff.mp member)
  refine ⟨entries, perm, sorted, ?_, ?_, ?_, ?_⟩
  · intro table operations fresh same
    exact opened_agrees readable sorted fresh operations (same.trans perm.symm)
  · intro table operations bucket fresh linked exactly
    exact list_agrees readable sorted fresh operations linked fun entry =>
      (exactly entry).trans perm.mem_iff.symm
  · intro shelf handles stored ordered reads same
    exact RunCursor.sorted_agrees readable sorted ordered reads (same.trans perm.symm)
  · rintro rfl
    obtain rfl := perm.eq_nil
    exact (Moves.ofNothing_follows .versioned).agrees readable sorted

/-- Two entries that a skip list and a bucket took in in different orders: a short target is refused,
there is no step from no entry, and the other steps go along the entries in order. -/
theorem two_cursors_agree :
    let skips := skipList (SkipTable.create { order := .versioned, arena := { id := 0 } } fun _ => 2)
    let chains := hashedChains {
      shelf := { order := .versioned, arena := { id := 0 } }
      index := { placement := { rule := .whole, hash := fun _ => 0 }, heads := .empty 1 } }
    let a : Bytes := [9, 0, 0, 0, 97, 1, 1, 0, 0, 0, 0, 0, 0, 0, 0, 0, 0]
    let b : Bytes := [9, 0, 0, 0, 98, 1, 1, 0, 0, 0, 0, 0, 0, 0, 0, 0, 0]
    let commands : List CursorCommand :=
      [.move (.seek [97]), .move .next, .move .last, .move .prev, .move .prev, .valid]
    let replies : List (Except Failure CursorReply) :=
      [.error .outOfRange, .error .unpositioned, .ok (.current (some b)), .ok (.current (some a)),
        .ok (.current none), .ok (.flag false)]
    let onSkips := skips.run [.insert ⟨0, ⟨0⟩, b⟩, .insert ⟨0, ⟨1⟩, a⟩]
    let onChains := chains.run [.insert ⟨0, ⟨0⟩, a⟩, .insert ⟨0, ⟨1⟩, b⟩]
    (onSkips.moves.session (.list {}) commands).2 = replies ∧
      (onChains.moves.session (.list { bucket := 0 }) commands).2 = replies := by
  intro skips chains a b commands replies onSkips onChains
  have bySkips : accepted skips [.insert ⟨0, ⟨0⟩, b⟩, .insert ⟨0, ⟨1⟩, a⟩] = [b, a] := by
    decide +kernel
  have byChains : accepted chains [.insert ⟨0, ⟨0⟩, a⟩, .insert ⟨0, ⟨1⟩, b⟩] = [a, b] := by
    decide +kernel
  have wellFormed : ∀ entry ∈ [a, b], WellFormed entry := by
    intro entry member
    rcases List.mem_pair.mp member with rfl | rfl
    · exact ⟨⟨[97], 1, .put, []⟩, by decide +kernel⟩
    · exact ⟨⟨[98], 1, .put, []⟩, by decide +kernel⟩
  have inOrder : KeyOrder.versioned.Sorted [a, b] := by
    simp only [KeyOrder.Sorted, List.pairwise_pair]
    decide +kernel
  obtain ⟨entries, perm, sorted, opened, along, _⟩ := cursors_agree wellFormed inOrder.untied
  obtain rfl : entries = [a, b] := KeyOrder.versioned_totalOn.sorted_ext
    (fun entry member => (wellFormed entry (perm.mem_iff.mp member)).hasTag) sorted inOrder
    fun entry => perm.mem_iff
  have answered : ((Moves.indexing [a, b]).session none commands).2 = replies := by decide +kernel
  have fresh : Fresh .versioned chains := @Fresh.hashedChains _ _ _ _ 1 0 rfl rfl
  rw [← answered]
  constructor
  · refine (along _ 0 (.skipList _ rfl) (by decide) fun entry => ?_).replies commands
    rw [bySkips]
    have swapped : [b, a].Perm [a, b] := .swap ..
    refine ⟨fun both => swapped.mem_iff.mp both.1, fun member => ⟨swapped.mem_iff.mpr member, ?_⟩⟩
    rintro _ _ ⟨⟩
  · refine (along _ 0 fresh (by decide) fun entry => ?_).replies commands
    rw [byChains]
    refine ⟨And.left, fun member => ⟨member, ?_⟩⟩
    rintro _ _ ⟨⟩
    rcases List.mem_pair.mp member with rfl | rfl
    · exact ⟨[97], by decide +kernel, by decide +kernel⟩
    · exact ⟨[98], by decide +kernel, by decide +kernel⟩

end MemTable

end WriteBuffer
