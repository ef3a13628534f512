import Mathlib
import WriteBuffer.Proofs.FrozenTables
import WriteBuffer.Proofs.Renumbering.Lists
import WriteBuffer.Proofs.Renumbering.Runs
import WriteBuffer.Proofs.Table.Cursor

/-!
Tables with buckets in which handles have other numbers (`MemTable.Renumbered`). They take in the same
entries and give the same answers, and their cursors cannot be told apart
(`MemTable.Renumbered.bisimilar`).
-/
namespace WriteBuffer

variable {renumbering : Renumbering} {draft : Draft}

namespace Table

variable {ι : Type} {Index : Shelf → Shelf → ι → ι → Prop} {a b : Table ι}

/-- A table is another one under other numbers, which its index is asked to be. -/
structure Renumbered (renumbering : Renumbering) (Index : Shelf → Shelf → ι → ι → Prop)
    (a b : Table ι) : Prop where
  shelf : a.shelf.Renumbered renumbering b.shelf
  gate : b.gate = a.gate
  index : Index a.shelf b.shelf a.index b.index

namespace Renumbered

theorem asWriter (renumbered : a.Renumbered renumbering Index b) (kind : TableKind)
    {insert other : Table ι → Outcome (Table ι) Unit}
    (inserts : ∀ x y : Table ι, x.shelf = a.shelf → x.Renumbered renumbering Index y →
      Agree (Renumbered renumbering Index) (insert x) (other y)) :
    Agree (Renumbered renumbering Index) (Table.asWriter kind insert a)
      (Table.asWriter kind other b) := by
  simp only [Table.asWriter, renumbered.gate]
  cases a.gate.enter kind with
  | error failure => exact ⟨rfl, renumbered⟩
  | ok gate =>
    obtain ⟨answer, now⟩ := inserts { a with gate } { b with gate } rfl
      ⟨renumbered.shelf, rfl, renumbered.index⟩
    exact ⟨answer, now.shelf, congrArg Gate.leave now.gate, now.index⟩

/-- An entry is taken in alike: its place is found alike, it is published under the other number, and
what follows is done alike. -/
theorem takeIn {α : Type} {question asked : Table ι → Except Failure α}
    {change changed : α → Table ι → Except Failure (Table ι)}
    (renumbered : a.Renumbered renumbering Index b)
    (free : draft.arena = a.shelf.arena.id → a.shelf.arena.entries.get? draft.handle.index = none)
    (grows : ∀ {s t s' t' : Shelf} {x y : ι}, Index s t x y → s'.Renumbered renumbering t' →
      s.arena.Keeps s'.arena → Index s' t' x y)
    (same : asked b = question a)
    (changes : draft.arena = a.shelf.arena.id → ∀ answer {x y : Table ι},
      x.Renumbered renumbering Index y → x.shelf.arena.Has draft.handle →
      Both (Renumbered renumbering Index) (change answer x) (changed answer y)) :
    Agree (Renumbered renumbering Index) (Table.takeIn draft question change a)
      (Table.takeIn (draft.renumber renumbering a.shelf.arena.id) asked changed b) := by
  simp only [Table.takeIn, same]
  cases question a with
  | error failure => exact ⟨rfl, renumbered⟩
  | ok answer =>
    simp only [Table.publish]
    rcases (renumbered.shelf.arena.publish free).cases with
      ⟨arena, other, stored, storedOther, arenas⟩ | ⟨failure, refused, refusedOther⟩
    · have shelf : Shelf.Renumbered renumbering { a.shelf with arena }
          { b.shelf with arena := other } := ⟨renumbered.shelf.order, arenas⟩
      have published : Renumbered renumbering Index { a with shelf := { a.shelf with arena } }
          { b with shelf := { b.shelf with arena := other } } :=
        ⟨shelf, renumbered.gate, grows renumbered.index shelf (Arena.get_publish stored).2⟩
      have own : draft.arena = a.shelf.arena.id := by
        by_contra foreign
        simp only [Arena.publish, ne_eq, foreign, not_false_eq_true, if_true] at stored
        cases stored
      simp only [stored, storedOther, bind, Except.bind, pure, Except.pure]
      rcases (changes own answer published ⟨_, (Arena.get_publish stored).1⟩).cases with
        ⟨x, y, done, doneOther, now⟩ | ⟨failure, failed, failedOther⟩
      · simp only [done, doneOther, commit]
        exact ⟨rfl, now⟩
      · simp only [failed, failedOther, commit]
        exact ⟨rfl, published⟩
    · simp only [refused, refusedOther, bind, Except.bind]
      exact ⟨rfl, renumbered⟩

theorem allocated (renumbered : a.Renumbered renumbering Index b)
    (grows : ∀ {s t s' t' : Shelf} {x y : ι}, Index s t x y → s'.Renumbered renumbering t' →
      s.arena.Keeps s'.arena → Index s' t' x y) (length : Nat) :
    Renumbered renumbering Index
      { a with shelf := { a.shelf with arena := (a.shelf.arena.allocate length).1 } }
      { b with shelf := { b.shelf with arena := (b.shelf.arena.allocate length).1 } } := by
  have shelf : Shelf.Renumbered renumbering
      { a.shelf with arena := (a.shelf.arena.allocate length).1 }
      { b.shelf with arena := (b.shelf.arena.allocate length).1 } :=
    ⟨renumbered.shelf.order, renumbered.shelf.arena.allocated length⟩
  exact ⟨shelf, renumbered.gate, grows renumbered.index shelf (Arena.keeps_allocate _ length)⟩

end Renumbered

end Table

/-! ### Skip lists by bucket -/

/-- Lists by bucket on nodes under other numbers. -/
structure HashedSkipIndex.Renumbered (renumbering : Renumbering) (s t : Shelf)
    (x y : HashedSkipIndex) : Prop where
  towers : Towers renumbering x.nodes s y.nodes t
  index : y = { x with nodes := y.nodes }

namespace HashedSkipIndex.Renumbered

variable {s t s' t' : Shelf} {x y : HashedSkipIndex}

theorem grows (renumbered : x.Renumbered renumbering s t y) (shelf : s'.Renumbered renumbering t')
    (keeps : s.arena.Keeps s'.arena) : x.Renumbered renumbering s' t' y :=
  ⟨renumbered.towers.onShelf shelf keeps, renumbered.index⟩

theorem fixed (renumbered : x.Renumbered renumbering s t y) {other : Renumbering}
    (shelf : s.Renumbered other t')
    (keeps : ∀ handle, s.arena.Has handle → other.number handle = handle) :
    x.Renumbered other s t' x :=
  ⟨renumbered.towers.fixed shelf fun node has => by rw [TowerNode.renumber, keeps _ has], rfl⟩

end HashedSkipIndex.Renumbered

namespace HashedSkipTable

variable {a b : HashedSkipTable}

/-- A table is another one under other numbers. -/
abbrev Renumbered (renumbering : Renumbering) : HashedSkipTable → HashedSkipTable → Prop :=
  Table.Renumbered renumbering (HashedSkipIndex.Renumbered renumbering)

namespace Renumbered

theorem buckets (renumbered : a.Renumbered renumbering b) : b.index.buckets = a.index.buckets := by
  rw [renumbered.index.index]

theorem bucketOf_eq (renumbered : a.Renumbered renumbering b) (userKey : Bytes) :
    b.index.bucketOf userKey = a.index.bucketOf userKey := by
  rw [renumbered.index.index]
  rfl

theorem offer_eq (renumbered : a.Renumbered renumbering b) (entry : Bytes) :
    offer b entry = offer a entry := by
  simp only [offer]
  rw [renumbered.index.index]
  rfl

theorem setList (renumbered : a.Renumbered renumbering b) (bucket : Nat) (list : SkipList) :
    (HashedSkipTable.setList a bucket list).Renumbered renumbering
      (HashedSkipTable.setList b bucket list) := by
  refine ⟨renumbered.shelf, renumbered.gate, renumbered.index.towers, ?_⟩
  simp only [HashedSkipTable.setList]
  rw [renumbered.index.index]

theorem insertInto (renumbered : a.Renumbered renumbering b)
    (free : draft.arena = a.shelf.arena.id → a.shelf.arena.entries.get? draft.handle.index = none)
    (bucket : Nat) (list : SkipList) (taken : Nat) :
    Agree (Renumbered renumbering) (HashedSkipTable.insertInto draft bucket list taken a)
      (HashedSkipTable.insertInto (draft.renumber renumbering a.shelf.arena.id) bucket list taken
        b) := by
  refine Table.Renumbered.takeIn renumbered free HashedSkipIndex.Renumbered.grows ?_ ?_
  · rw [Draft.renumber_bytes]
    exact renumbered.index.towers.spliceFor list draft.bytes
  · intro own splice x y now has
    have heights : y.index.heights = x.index.heights := by rw [now.index.index]
    have bytes : y.index.listBytes = x.index.listBytes := by rw [now.index.index]
    rw [Draft.renumber_handle own, heights, bytes]
    refine (now.index.towers.insertAt list x.index.heights splice has).bind ?_
    rintro ⟨nodes, grown, height⟩ ⟨others, _⟩ _ _ ⟨rfl, towers⟩
    refine ⟨now.shelf, now.gate, towers, ?_⟩
    simp only [HashedSkipTable.setList]
    rw [now.index.index]

theorem insert (renumbered : a.Renumbered renumbering b)
    (free : draft.arena = a.shelf.arena.id → a.shelf.arena.entries.get? draft.handle.index = none) :
    Agree (Renumbered renumbering) (HashedSkipTable.insert draft a)
      (HashedSkipTable.insert (draft.renumber renumbering a.shelf.arena.id) b) := by
  refine renumbered.asWriter .hashedSkipLists fun x y shelf entered => ?_
  have now : HashedSkipTable.Renumbered renumbering x y := entered
  rw [Draft.renumber_bytes, now.offer_eq]
  cases offer x draft.bytes with
  | error failure => exact ⟨rfl, now⟩
  | ok target =>
    obtain ⟨bucket, list, taken⟩ := target
    rw [← shelf] at free ⊢
    exact (now.setList bucket list).insertInto free bucket list taken

theorem contains_eq (renumbered : a.Renumbered renumbering b) (internalKey : Bytes) :
    b.contains internalKey = a.contains internalKey := by
  simp only [contains, HashedSkipIndex.listOf, renumbered.bucketOf_eq, renumbered.buckets,
    renumbered.index.towers.contains]

theorem listMoves_eq (renumbered : a.Renumbered renumbering b) : listMoves b = listMoves a := by
  funext bucket
  simp only [listMoves, renumbered.buckets, renumbered.index.towers.moves_eq]

theorem bucketCursor_eq (renumbered : a.Renumbered renumbering b) :
    bucketCursor b = bucketCursor a := by
  funext userKey
  simp only [bucketCursor, renumbered.bucketOf_eq, renumbered.buckets]

theorem sortedHandles (renumbered : a.Renumbered renumbering b) :
    Both (ImageOf renumbering.number a.shelf.arena.Has) a.sortedHandles b.sortedHandles := by
  have each : ∀ list : SkipList, Both (ImageOf renumbering.number a.shelf.arena.Has)
      (list.handles a.index.nodes) (list.handles b.index.nodes) := by
    intro list
    rw [renumbered.index.towers.handles]
    cases found : list.handles a.index.nodes with
    | error failure => exact rfl
    | ok handles => exact ⟨rfl, renumbered.index.towers.has_handles found⟩
  simp only [HashedSkipTable.sortedHandles, renumbered.buckets]
  exact (Both.mapM each).bind fun _ _ _ _ images =>
    mergeRuns_both (fun x y => renumbered.shelf.compareHandles) images

end Renumbered

end HashedSkipTable

/-! ### Chains by bucket -/

/-- Chains by bucket on nodes under other numbers. -/
structure HashedChainIndex.Renumbered (renumbering : Renumbering) (s t : Shelf)
    (x y : HashedChainIndex) : Prop where
  chains : Chains renumbering x.nodes s y.nodes t
  index : y = { x with nodes := y.nodes }

namespace HashedChainIndex.Renumbered

variable {s t s' t' : Shelf} {x y : HashedChainIndex}

theorem grows (renumbered : x.Renumbered renumbering s t y) (shelf : s'.Renumbered renumbering t')
    (keeps : s.arena.Keeps s'.arena) : x.Renumbered renumbering s' t' y :=
  ⟨renumbered.chains.onShelf shelf keeps, renumbered.index⟩

theorem fixed (renumbered : x.Renumbered renumbering s t y) {other : Renumbering}
    (shelf : s.Renumbered other t')
    (keeps : ∀ handle, s.arena.Has handle → other.number handle = handle) :
    x.Renumbered other s t' x :=
  ⟨renumbered.chains.fixed shelf fun node has => by rw [ChainNode.renumber, keeps _ has], rfl⟩

theorem heads (renumbered : x.Renumbered renumbering s t y) : y.heads = x.heads := by
  rw [renumbered.index]

theorem chainOf (renumbered : x.Renumbered renumbering s t y) (bucket : Nat) :
    y.chainOf bucket = (x.chainOf bucket).map (Chains.renumber renumbering) := by
  rw [HashedChainIndex.chainOf, renumbered.chains.chain, renumbered.heads, HashedChainIndex.chainOf]

/-- A handle of a published entry is linked in alike under its other number. -/
theorem link (renumbered : x.Renumbered renumbering s t y) (bucket : Nat)
    (gap : Option NodeId × Option NodeId) {handle : Handle} (has : s.arena.Has handle) :
    Both (Renumbered renumbering s t) (x.link bucket gap handle)
      (y.link bucket gap (renumbering.number handle)) := by
  obtain ⟨answer, stored⟩ := renumbered.chains.push
    (show s.arena.Has (ChainNode.handle ⟨handle, gap.2⟩) from has)
  have raised : ChainNode.renumber renumbering ⟨handle, gap.2⟩
    = ⟨renumbering.number handle, gap.2⟩ := rfl
  rw [raised] at answer stored
  simp only [HashedChainIndex.link]
  generalize x.nodes.push ⟨handle, gap.2⟩ = first at answer stored ⊢
  generalize y.nodes.push ⟨renumbering.number handle, gap.2⟩ = second at answer stored ⊢
  obtain ⟨nodes, done⟩ := first
  obtain ⟨others, pushed⟩ := second
  simp only at answer stored
  subst answer
  cases pushed with
  | error failure => exact rfl
  | ok id =>
    have parts : y.placement = x.placement := by rw [renumbered.index]
    simp only [renumbered.heads, parts]
    cases gap.1 with
    | none => exact ⟨stored rfl, rfl⟩
    | some place => exact ⟨(stored rfl).update place (fun _ => rfl) fun _ => rfl, rfl⟩

end HashedChainIndex.Renumbered

namespace HashedChainTable

variable {a b : HashedChainTable}

/-- A table is another one under other numbers. -/
abbrev Renumbered (renumbering : Renumbering) : HashedChainTable → HashedChainTable → Prop :=
  Table.Renumbered renumbering (HashedChainIndex.Renumbered renumbering)

namespace Renumbered

theorem bucketOf_eq (renumbered : a.Renumbered renumbering b) (userKey : Bytes) :
    b.index.bucketOf userKey = a.index.bucketOf userKey := by
  rw [renumbered.index.index]
  rfl

theorem placeFor_eq (renumbered : a.Renumbered renumbering b) (entry : Bytes) :
    placeFor b entry = placeFor a entry := by
  simp only [placeFor, renumbered.bucketOf_eq, renumbered.index.chainOf]
  refine bind_congr fun userKey => bind_congr fun bucket => ?_
  cases found : a.index.chainOf bucket with
  | error failure => rfl
  | ok rows =>
    have has := renumbered.index.chains.has_chain found
    simp only [Except.map, bind, Except.bind, renumbered.index.chains.gapIn has]

theorem insert (renumbered : a.Renumbered renumbering b)
    (free : draft.arena = a.shelf.arena.id → a.shelf.arena.entries.get? draft.handle.index = none) :
    Agree (Renumbered renumbering) (HashedChainTable.insert draft a)
      (HashedChainTable.insert (draft.renumber renumbering a.shelf.arena.id) b) := by
  refine renumbered.asWriter .hashedChains fun x y shelf entered => ?_
  have now : HashedChainTable.Renumbered renumbering x y := entered
  rw [← shelf] at free ⊢
  refine Table.Renumbered.takeIn now free HashedChainIndex.Renumbered.grows ?_ ?_
  · rw [Draft.renumber_bytes]
    exact now.placeFor_eq draft.bytes
  · rintro own ⟨bucket, gap⟩ u v further has
    rw [Draft.renumber_handle own]
    refine (further.index.link bucket gap has).bind fun _ _ _ _ linked => ?_
    exact ⟨further.shelf, further.gate, linked⟩

theorem contains_eq (renumbered : a.Renumbered renumbering b) (internalKey : Bytes) :
    b.contains internalKey = a.contains internalKey := by
  simp only [contains, renumbered.bucketOf_eq, renumbered.index.chainOf]
  refine bind_congr fun userKey => bind_congr fun bucket => ?_
  cases found : a.index.chainOf bucket with
  | error failure => rfl
  | ok rows =>
    refine (Both.eq ?_).symm
    refine (renumbered.index.chains.seekIn (renumbered.index.chains.has_chain found)
      internalKey).bind ?_
    rintro place _ _ _ ⟨rfl, has⟩
    cases place with
    | none => exact rfl
    | some row =>
      simp only [Option.map_some, renumbered.shelf.compareKey (has row rfl)]
      exact Both.of_eq fun _ _ => rfl

theorem listMoves_eq (renumbered : a.Renumbered renumbering b) : listMoves b = listMoves a := by
  funext bucket
  simp only [listMoves, renumbered.index.heads, renumbered.index.chains.moves_eq]

theorem bucketCursor_eq (renumbered : a.Renumbered renumbering b) :
    bucketCursor b = bucketCursor a := by
  funext userKey
  simp only [bucketCursor, renumbered.bucketOf_eq, renumbered.index.heads]

theorem sortedHandles (renumbered : a.Renumbered renumbering b) :
    Both (ImageOf renumbering.number a.shelf.arena.Has) a.sortedHandles b.sortedHandles := by
  have each : ∀ head : NodeId, Both
      (fun rows others =>
        ImageOf renumbering.number a.shelf.arena.Has (rows.map (·.2)) (others.map (·.2)))
      (a.index.nodes.chain (some head)) (b.index.nodes.chain (some head)) := by
    intro head
    rw [renumbered.index.chains.chain]
    cases found : a.index.nodes.chain (some head) with
    | error failure => exact rfl
    | ok rows =>
      refine ⟨by simp [Chains.renumber], fun handle member => ?_⟩
      obtain ⟨row, there, rfl⟩ := List.mem_map.mp member
      exact renumbered.index.chains.has_chain found row there
  simp only [HashedChainTable.sortedHandles, renumbered.index.heads]
  refine (Both.mapM each).bind fun _ _ _ _ images => ?_
  exact mergeRuns_both (fun x y => renumbered.shelf.compareHandles)
    (List.forall₂_map_left_iff.mpr (List.forall₂_map_right_iff.mpr images))

end Renumbered

end HashedChainTable

/-! ### Tables with buckets -/

/-- Cursors are the same up to the numbers in runs. -/
inductive TableCursor.Renumbered (renumbering : Renumbering) (s : Shelf) :
    TableCursor → TableCursor → Prop
  | nothing : Renumbered renumbering s .nothing .nothing
  | run {a b : RunCursor} (renumbered : a.Renumbered renumbering s b) :
    Renumbered renumbering s (.run a) (.run b)
  | list (cursor : BucketCursor) : Renumbered renumbering s (.list cursor) (.list cursor)
  | group (cursor : GroupCursor BucketCursor) : Renumbered renumbering s (.group cursor) (.group cursor)

namespace TableCursor.Renumbered

variable {s s' : Shelf} {c d : TableCursor}

theorem grows (renumbered : c.Renumbered renumbering s d) (keeps : s.arena.Keeps s'.arena) :
    c.Renumbered renumbering s' d := by
  cases renumbered with
  | nothing => exact .nothing
  | run renumbered =>
    exact .run ⟨renumbered.1, fun handle member => (renumbered.2 handle member).imp fun _ => keeps⟩
  | list cursor => exact .list cursor
  | group cursor => exact .group cursor

theorem fixed (renumbered : c.Renumbered renumbering s d) {other : Renumbering}
    (keeps : ∀ handle, s.arena.Has handle → other.number handle = handle) :
    c.Renumbered other s c := by
  cases renumbered with
  | nothing => exact .nothing
  | @run a _ renumbered =>
    have same : a.handles.map other.number = a.handles :=
      (List.map_congr_left fun handle member => keeps _ (renumbered.2 handle member)).trans
        (List.map_id' _)
    exact .run ⟨by rw [same], renumbered.2⟩
  | list cursor => exact .list cursor
  | group cursor => exact .group cursor

end TableCursor.Renumbered

namespace MemTable

variable {a b : MemTable}

/-- A table with buckets is another one under other numbers. -/
inductive Renumbered (renumbering : Renumbering) : MemTable → MemTable → Prop
  | hashedSkipLists {a b : HashedSkipTable} (renumbered : a.Renumbered renumbering b) :
    Renumbered renumbering (hashedSkipLists a) (hashedSkipLists b)
  | hashedChains {a b : HashedChainTable} (renumbered : a.Renumbered renumbering b) :
    Renumbered renumbering (hashedChains a) (hashedChains b)

theorem bucketMoves_bisimilar {s t : Shelf} (shelf : s.Renumbered renumbering t) (rule : PrefixRule)
    (lists : Nat → Moves (Option NodeId))
    (openBucket : Bytes → Except Failure (Option BucketCursor)) :
    (bucketMoves s rule lists openBucket).Bisimilar (bucketMoves t rule lists openBucket)
      (TableCursor.Renumbered renumbering s) where
  valid := by
    rintro _ _ (_ | ⟨renumbered⟩ | _ | _)
    · rfl
    · exact (RunCursor.renumbered_bisimilar shelf).valid renumbered
    · rfl
    · rfl
  entry := by
    rintro _ _ (_ | ⟨renumbered⟩ | _ | _)
    · rfl
    · exact (RunCursor.renumbered_bisimilar shelf).entry renumbered
    · rfl
    · rfl
  move := by
    intro c d related motion
    have moves : ∀ (s : Shelf) cursor, (bucketMoves s rule lists openBucket).move motion cursor
        = TableCursor.move (RunCursor.moves s) (BucketCursor.moves lists)
          (GroupCursor.moves rule openBucket (BucketCursor.moves lists)) motion cursor := by
      intro s cursor
      cases motion <;> rfl
    rw [moves, moves]
    cases related with
    | nothing => exact (Both.of_eq (R := Eq) fun _ _ => rfl).map fun _ _ _ => .nothing
    | run renumbered =>
      exact ((RunCursor.renumbered_bisimilar shelf).move renumbered motion).map fun _ _ => .run
    | list cursor =>
      refine (Both.of_eq (R := Eq) fun _ _ => rfl).map ?_
      rintro arrived _ rfl
      exact .list arrived
    | group cursor =>
      refine (Both.of_eq (R := Eq) fun _ _ => rfl).map ?_
      rintro arrived _ rfl
      exact .group arrived

namespace Renumbered

theorem shelf (renumbered : a.Renumbered renumbering b) : a.shelf.Renumbered renumbering b.shelf := by
  cases renumbered with
  | hashedSkipLists renumbered => exact renumbered.shelf
  | hashedChains renumbered => exact renumbered.shelf

theorem arena (renumbered : a.Renumbered renumbering b) : a.arena.Renumbered renumbering b.arena :=
  renumbered.shelf.arena

theorem moves (renumbered : a.Renumbered renumbering b) : ∃ rule lists openBucket,
    a.moves = bucketMoves a.shelf rule lists openBucket ∧
      b.moves = bucketMoves b.shelf rule lists openBucket := by
  cases renumbered with
  | @hashedSkipLists a b renumbered =>
    have rule : b.index.placement = a.index.placement := by rw [renumbered.index.index]
    refine ⟨_, _, _, rfl, ?_⟩
    simp only [MemTable.moves, rule, HashedSkipTable.Renumbered.listMoves_eq renumbered,
      HashedSkipTable.Renumbered.bucketCursor_eq renumbered]
    rfl
  | @hashedChains a b renumbered =>
    have rule : b.index.placement = a.index.placement := by rw [renumbered.index.index]
    refine ⟨_, _, _, rfl, ?_⟩
    simp only [MemTable.moves, rule, HashedChainTable.Renumbered.listMoves_eq renumbered,
      HashedChainTable.Renumbered.bucketCursor_eq renumbered]
    rfl

/-- Cursors over tables under other numbers cannot be told apart. -/
theorem bisimilar (renumbered : a.Renumbered renumbering b) :
    a.moves.Bisimilar b.moves (TableCursor.Renumbered renumbering a.shelf) := by
  obtain ⟨rule, lists, openBucket, movesA, movesB⟩ := renumbered.moves
  rw [movesA, movesB]
  exact bucketMoves_bisimilar renumbered.shelf rule lists openBucket

theorem span (renumbered : a.Renumbered renumbering b) {c d : TableCursor}
    (related : c.Renumbered renumbering a.shelf d) : a.moves.span c = b.moves.span d := by
  obtain ⟨rule, lists, openBucket, movesA, movesB⟩ := renumbered.moves
  rw [movesA, movesB]
  cases related with
  | nothing | list cursor | group cursor => rfl
  | run renumbered =>
    obtain ⟨rfl, _⟩ := renumbered
    simp only [bucketMoves, TableCursor.moves, RunCursor.moves, List.length_map]

/-- Cursors are opened alike. -/
theorem openCursor (renumbered : a.Renumbered renumbering b) (range : Range) :
    Both (TableCursor.Renumbered renumbering a.shelf) (a.openCursor range).2
      (b.openCursor range).2 := by
  have bucket : ∀ opened : Except Failure (Option BucketCursor),
      Both (TableCursor.Renumbered renumbering a.shelf)
        (do return (← opened).elim .nothing .list) (do return (← opened).elim .nothing .list) := by
    intro opened
    refine (Both.of_eq (R := Eq) fun _ _ => rfl).bind ?_
    rintro (_ | cursor) _ _ _ rfl
    · exact .nothing
    · exact .list cursor
  cases renumbered with
  | @hashedSkipLists a b renumbered =>
    cases range with
    | all =>
      exact (HashedSkipTable.Renumbered.sortedHandles renumbered).bind fun _ _ _ _ image =>
        .run ⟨congrArg RunCursor.mk image.1 ▸ rfl, image.2⟩
    | bucketOf userKey =>
      simp only [MemTable.openCursor, HashedSkipTable.Renumbered.bucketCursor_eq renumbered]
      exact bucket _
    | groups => exact .group {}
  | @hashedChains a b renumbered =>
    cases range with
    | all =>
      exact (HashedChainTable.Renumbered.sortedHandles renumbered).bind fun _ _ _ _ image =>
        .run ⟨congrArg RunCursor.mk image.1 ▸ rfl, image.2⟩
    | bucketOf userKey =>
      simp only [MemTable.openCursor, HashedChainTable.Renumbered.bucketCursor_eq renumbered]
      exact bucket _
    | groups => exact .group {}

theorem openCursor_table (renumbered : a.Renumbered renumbering b) (range : Range) :
    (a.openCursor range).1 = a ∧ (b.openCursor range).1 = b := by
  cases renumbered <;> exact ⟨rfl, rfl⟩

theorem contains (renumbered : a.Renumbered renumbering b) (internalKey : Bytes) :
    Agree (Renumbered renumbering) (a.contains internalKey) (b.contains internalKey) := by
  cases renumbered with
  | hashedSkipLists renumbered =>
    exact ⟨HashedSkipTable.Renumbered.contains_eq renumbered internalKey, .hashedSkipLists renumbered⟩
  | hashedChains renumbered =>
    exact ⟨HashedChainTable.Renumbered.contains_eq renumbered internalKey, .hashedChains renumbered⟩

theorem close (renumbered : a.Renumbered renumbering b) :
    Agree (Renumbered renumbering) a.close b.close := by
  cases renumbered with
  | hashedSkipLists renumbered =>
    exact ⟨rfl, .hashedSkipLists
      ⟨renumbered.shelf, congrArg Gate.close renumbered.gate, renumbered.index⟩⟩
  | hashedChains renumbered =>
    exact ⟨rfl, .hashedChains
      ⟨renumbered.shelf, congrArg Gate.close renumbered.gate, renumbered.index⟩⟩

theorem scan (renumbered : a.Renumbered renumbering b) :
    Agree (Renumbered renumbering) a.scan b.scan := by
  have bisimilar := renumbered.bisimilar
  refine ⟨(Both.eq ?_).symm, by cases renumbered <;> constructor <;> assumption⟩
  rw [scan_eq, scan_eq]
  refine (renumbered.openCursor .all).bind fun _ _ _ _ opened => ?_
  refine (bisimilar.move opened .first).bind fun start _ _ _ related => ?_
  rw [(bisimilar.walkForward renumbered.span related).2]
  exact Both.of_eq fun _ _ => rfl

theorem scanBackward (renumbered : a.Renumbered renumbering b) :
    Agree (Renumbered renumbering) a.scanBackward b.scanBackward := by
  have bisimilar := renumbered.bisimilar
  refine ⟨(Both.eq ?_).symm, by cases renumbered <;> constructor <;> assumption⟩
  rw [scanBackward_eq, scanBackward_eq]
  refine (renumbered.openCursor .all).bind fun _ _ _ _ opened => ?_
  refine (bisimilar.move opened .last).bind fun start _ _ _ related => ?_
  rw [(bisimilar.walkBackward renumbered.span related).2]
  exact Both.of_eq fun _ _ => rfl

theorem get (renumbered : a.Renumbered renumbering b) (key : LookupKey) (goesOn : List Bytes → Bool) :
    Agree (Renumbered renumbering) (a.get key goesOn) (b.get key goesOn) := by
  have ordered : a.kind ≠ .cuckoo ∧ b.kind ≠ .cuckoo := by cases renumbered <;> exact ⟨nofun, nofun⟩
  refine ⟨(Both.eq ?_).symm, ?_⟩
  · rw [get_eq ordered.1, get_eq ordered.2]
    refine (Both.of_eq (R := Eq) fun _ _ => rfl).bind ?_
    rintro userKey _ _ _ rfl
    refine (renumbered.openCursor (.bucketOf userKey)).bind fun _ _ _ _ opened => ?_
    rw [renumbered.bisimilar.visitFrom renumbered.span opened]
    exact Both.of_eq fun _ _ => rfl
  · simp only [MemTable.get]
    cases key.userKey with
    | error failure => exact renumbered
    | ok userKey => cases renumbered <;> constructor <;> assumption

theorem insert (renumbered : a.Renumbered renumbering b)
    (free : draft.arena = a.arena.id → a.arena.entries.get? draft.handle.index = none) :
    Agree (Renumbered renumbering) (a.insert draft)
      (b.insert (draft.renumber renumbering a.arena.id)) := by
  cases renumbered with
  | hashedSkipLists renumbered =>
    obtain ⟨answer, now⟩ := HashedSkipTable.Renumbered.insert renumbered free
    exact ⟨answer, .hashedSkipLists now⟩
  | hashedChains renumbered =>
    obtain ⟨answer, now⟩ := HashedChainTable.Renumbered.insert renumbered free
    exact ⟨answer, .hashedChains now⟩

theorem allocated (renumbered : a.Renumbered renumbering b) (length : Nat) :
    (a.allocate length).1.Renumbered renumbering (b.allocate length).1 := by
  cases renumbered with
  | hashedSkipLists renumbered =>
    exact .hashedSkipLists (renumbered.allocated HashedSkipIndex.Renumbered.grows length)
  | hashedChains renumbered =>
    exact .hashedChains (renumbered.allocated HashedChainIndex.Renumbered.grows length)

theorem allocate (renumbered : a.Renumbered renumbering b)
    (handles : renumbering.count = 0 ∨ b.arena.entries.reserved < UInt32.size - 1) (length : Nat) :
    (b.allocate length).2 = (a.allocate length).2.map (Draft.renumber renumbering a.arena.id) :=
  renumbered.arena.allocate handles length

theorem insert_allocated (renumbered : a.Renumbered renumbering b)
    (packed : a.arena.entries.Packed) {length : Nat}
    (handedOut : (a.allocate length).2 = .ok draft) (bytes : Bytes) :
    Agree (Renumbered renumbering) ((a.allocate length).1.insert { draft with bytes })
      ((b.allocate length).1.insert { draft.renumber renumbering a.arena.id with bytes }) := by
  have arena : (a.allocate length).1.arena = (a.arena.allocate length).1 := by
    cases renumbered <;> rfl
  rw [Draft.refill_renumber, ← show (a.allocate length).1.arena.id = a.arena.id by rw [arena]; rfl]
  have free : a.arena.entries.get? draft.handle.index = none :=
    Arena.free_allocated packed handedOut
  refine (renumbered.allocated length).insert fun _ => ?_
  rw [arena]
  exact free

/-- A record is added alike, under the other number. -/
theorem add (renumbered : a.Renumbered renumbering b)
    (handles : renumbering.count = 0 ∨ b.arena.entries.reserved < UInt32.size - 1)
    (packed : a.arena.entries.Packed) (record : Record) :
    (a.add record).1.Renumbered renumbering (b.add record).1 ∧
      (b.add record).2 = (a.add record).2.map renumbering.number := by
  have answer := renumbered.allocate handles record.size
  have now := renumbered.allocated record.size
  have own : ∀ {draft}, (a.allocate record.size).2 = .ok draft → draft.arena = a.arena.id :=
    Arena.arena_of_allocate
  have inserts := fun {draft} (handedOut : (a.allocate record.size).2 = .ok draft) =>
    renumbered.insert_allocated packed handedOut
  simp only [MemTable.add]
  generalize a.allocate record.size = x at answer now own inserts ⊢
  generalize b.allocate record.size = y at answer now inserts ⊢
  obtain ⟨s, allocated⟩ := x
  obtain ⟨t, other⟩ := y
  simp only at answer now own inserts
  subst answer
  cases allocated with
  | error failure => exact ⟨now, rfl⟩
  | ok draft =>
    simp only [Except.map, Draft.renumber_bytes]
    rcases record.write draft.bytes with ⟨bytes, failure | done⟩
    · exact ⟨now, rfl⟩
    · obtain ⟨answer, states⟩ := inserts rfl bytes
      refine ⟨states, ?_⟩
      dsimp only
      rw [answer, Draft.renumber_handle (own rfl)]
      cases (s.insert { draft with bytes }).2 <;> rfl

theorem keeping (renumbered : a.Renumbered renumbering b) : a.Renumbered (.keeping 0) a := by
  have shelf : a.shelf.Renumbered (.keeping 0) a.shelf := ⟨rfl, a.arena.renumbered_keeping⟩
  cases renumbered with
  | hashedSkipLists renumbered =>
    exact .hashedSkipLists ⟨shelf, rfl, renumbered.index.fixed shelf fun _ _ => rfl⟩
  | hashedChains renumbered =>
    exact .hashedChains ⟨shelf, rfl, renumbered.index.fixed shelf fun _ _ => rfl⟩

/-- A table that handed out a draft is what it was, but that later handles are raised by one. -/
theorem skipping (renumbered : a.Renumbered renumbering b) (packed : a.arena.entries.Packed)
    (length : Nat) :
    a.Renumbered (.skipping a.arena.entries.reserved) (a.allocate length).1 := by
  have arena := Arena.renumbered_skipping packed length
  have keeps : ∀ handle, a.arena.Has handle →
      (Renumbering.skipping a.arena.entries.reserved).number handle = handle :=
    fun handle has => (Renumbering.skipping _).early handle (has.low packed)
  cases renumbered with
  | @hashedSkipLists a b renumbered =>
    have shelf : a.shelf.Renumbered (.skipping a.shelf.arena.entries.reserved)
      { a.shelf with arena := (a.shelf.arena.allocate length).1 } := ⟨rfl, arena⟩
    exact .hashedSkipLists ⟨shelf, rfl, renumbered.index.fixed shelf keeps⟩
  | @hashedChains a b renumbered =>
    have shelf : a.shelf.Renumbered (.skipping a.shelf.arena.entries.reserved)
      { a.shelf with arena := (a.shelf.arena.allocate length).1 } := ⟨rfl, arena⟩
    exact .hashedChains ⟨shelf, rfl, renumbered.index.fixed shelf keeps⟩

end Renumbered

/-- A table with buckets that was just made is itself where handles keep their numbers. -/
theorem Made.renumbered {table : MemTable} (made : Made table)
    (bucketed : table.kind = .hashedSkipLists ∨ table.kind = .hashedChains) :
    table.Renumbered (.keeping 0) table := by
  have shelf : table.shelf.Renumbered (.keeping 0) table.shelf :=
    ⟨rfl, table.arena.renumbered_keeping⟩
  cases made with
  | cuckoo made => simp [kind] at bucketed
  | ordered fresh =>
    cases fresh with
    | skipList | vector => simp [kind] at bucketed
    | hashedSkipLists ordered made =>
      simp only [HashedSkipTable.create, bind_eq_ok, pure, Except.pure, Except.ok.injEq] at made
      obtain ⟨_, _, rfl⟩ := made
      exact .hashedSkipLists ⟨shelf, rfl, Shelved.empty shelf, rfl⟩
    | @hashedChains _ table _ _ _ ordered made =>
      simp only [HashedChainTable.create, bind_eq_ok, pure, Except.pure, Except.ok.injEq] at made
      obtain ⟨_, _, made⟩ := made
      have nodes : table.index.nodes = .empty := by
        rw [← made]
        split <;> rfl
      refine .hashedChains ⟨shelf, rfl, ?_, rfl⟩
      rw [nodes]
      exact Shelved.empty shelf

end MemTable

end WriteBuffer
