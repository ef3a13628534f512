import Mathlib
import WriteBuffer.Proofs.Room
import WriteBuffer.Proofs.SkipList.Insert
import WriteBuffer.Session.SkipLists

/-!
Steps of sessions with several skip lists. A step publishes at most the entry of its record, and
either it leaves all lists and node stores as they are or it links one handle into one list, behind
a splice that was found for the entry of the handle (`SkipListSession.carries`). What a run
links into a list are the handles of its steps that succeed (`SkipListSession.links`).
-/
namespace WriteBuffer

/-- Publishing a draft adds no other entry. -/
theorem Arena.get_of_publish {arena new : Arena} {draft : Draft} {handle : Handle} {entry : Bytes}
    (published : arena.publish draft = .ok new) (found : new.get handle = .ok entry) :
    entry = draft.bytes ∨ arena.get handle = .ok entry := by
  simp only [publish] at published
  split at published
  · cases published
  · split at published
    · cases published
    · next entries same =>
      have answer := congrArg Prod.snd same
      have slots := congrArg Prod.fst same
      have free : arena.entries.get? draft.handle.index = none := by
        cases before : arena.entries.get? draft.handle.index with
        | none => rfl
        | some old => simp [ChunkStore.publish, before] at answer
      obtain rfl := Except.ok.inj published
      have read := ChunkStore.get?_publish free draft.bytes handle.index
      rw [get_eq_ok_iff] at found ⊢
      rw [slots, found] at read
      split at read
      · exact .inl (Option.some.inj read)
      · exact .inr read.symm

theorem getElem?_set_cases {α : Type} {xs : List α} {i j : Nat} {x y : α}
    (found : (xs.set i x)[j]? = some y) : (j = i ∧ y = x) ∨ (j ≠ i ∧ xs[j]? = some y) := by
  rw [List.getElem?_set] at found
  split at found
  · next same =>
    split at found
    · exact .inl ⟨same.symm, (Option.some.inj found).symm⟩
    · cases found
  · next different => exact .inr ⟨Ne.symm different, found⟩

/-- The record that a step writes. -/
def SkipListCommand.record? : SkipListCommand → Option Record
  | add _ record | splice _ record | publish record => some record
  | _ => none

/-- The list into which a step links a handle. -/
def SkipListCommand.into? : SkipListCommand → Option Nat
  | add number _ | splice number _ | link number _ => some number
  | _ => none

namespace SkipListSession

def run (session : SkipListSession) (commands : List SkipListCommand) : SkipListSession :=
  commands.foldl (fun session command => (session.execute command).1) session

/-- The list that a step is about. A step of a cursor is about the list it was opened over. -/
def about (session : SkipListSession) : SkipListCommand → Option Nat
  | .add number _ | .splice number _ | .link number _ | .has number _ | .hasRaw number _
  | .isEmpty number | .handles number | .openCursor _ number => some number
  | .cursor name _ => (session.cursors.find? name).map Prod.fst
  | .publish _ | .nodeCount | .arenaSize => none

/-- What a step links into a list: its handle, if it succeeds. -/
def linked (session : SkipListSession) (number : Nat) (command : SkipListCommand) : List Handle :=
  match command, (session.execute command).2 with
  | .add list _, .ok (.handle handle) => if list = number then [handle] else []
  | .splice list _, .ok (.handle handle) => if list = number then [handle] else []
  | .link list handle, .ok _ => if list = number then [handle] else []
  | _, _ => []

/-- What a run links into a list, in order. -/
def links (number : Nat) : SkipListSession → List SkipListCommand → List Handle
  | _, [] => []
  | session, command :: rest =>
    session.linked number command ++ links number (session.execute command).1 rest

/-- A session with lists that were just made, on stores without nodes, and without entries. -/
structure Fresh (session : SkipListSession) (order : KeyOrder) : Prop where
  order : session.shelf.order = order
  arena : session.shelf.arena = { id := 0 }
  stores : ∀ {store : Nat} {nodes}, session.stores[store]? = some nodes → nodes = ChunkStore.empty
  lists : ∀ {number : Nat} {list store}, session.lists[number]? = some (list, store) →
    (∃ maxHeight branching, SkipList.create maxHeight branching = .ok list) ∧
      session.stores[store]? = some ChunkStore.empty
  cursors : session.cursors = []

/-- A step has linked a handle into a list, behind a splice found for the entry of the handle when
the list was as before the step. -/
inductive TakesIn (session next : SkipListSession) (number : Nat) (handle : Handle) : Prop
  | intro {list longer : SkipList} {store height : Nat} {nodes grown : NodeStore} {before : Shelf}
    {entry : Bytes} {splice : Splice}
    (found : session.find? number = some (list, store, nodes))
    (later : session.shelf.Extends before)
    (earlier : before.Extends next.shelf)
    (read : next.shelf.arena.get handle = .ok entry)
    (place : list.spliceFor nodes before entry = .ok splice)
    (done : list.insertAt nodes session.heights splice handle = .ok (grown, longer, height))
    (stores : next.stores = session.stores.set store grown)
    (lists : next.lists = session.lists.set number (longer, store))

/-- A step has changed no list. -/
structure LeavesLists (session next : SkipListSession) : Prop where
  stores : next.stores = session.stores
  lists : next.lists = session.lists

/-- What every step keeps, and what it publishes. -/
structure Extends (session next : SkipListSession) (record? : Option Record) : Prop where
  shelf : session.shelf.Extends next.shelf
  heights : next.heights = session.heights
  shared : next.shared = session.shared
  published : ∀ {handle entry}, next.shelf.arena.get handle = .ok entry →
    session.shelf.arena.get handle = .ok entry ∨ ∃ record ∈ record?, record.encode = .ok entry

theorem Extends.refl (session : SkipListSession) (record? : Option Record) :
    session.Extends session record? := ⟨.refl _, rfl, rfl, .inl⟩

variable {session next : SkipListSession} {number : Nat} {record : Record} {draft : Draft}
  {handle : Handle} {reply : SkipListReply} {list : SkipList} {store : Nat} {nodes : NodeStore}

theorem find?_eq_some_iff : session.find? number = some (list, store, nodes) ↔
    session.lists[number]? = some (list, store) ∧ session.stores[store]? = some nodes := by
  simp only [find?, Option.bind_eq_bind, Option.bind_eq_some_iff, Prod.exists, Option.pure_def,
    Option.some.injEq, Prod.mk.injEq]
  constructor
  · rintro ⟨_, _, inLists, _, inStores, rfl, rfl, rfl⟩
    exact ⟨inLists, inStores⟩
  · rintro ⟨inLists, inStores⟩
    exact ⟨list, store, inLists, nodes, inStores, rfl, rfl, rfl⟩

/-- A session starts with lists that were just made. -/
theorem fresh_start {order : KeyOrder} {heights : Heights} {maxHeight branching count : Nat}
    {shared : Bool} (started : start order heights maxHeight branching count shared = .ok session) :
    session.Fresh order ∧ session.lists.length = count := by
  simp only [start, bind_eq_ok] at started
  obtain ⟨lists, listed, started⟩ := started
  obtain rfl := Except.ok.inj started
  have entered : ∃ list, (0 < count → SkipList.create maxHeight branching = .ok list) ∧
      lists = (List.range count).map fun number => (list, if shared then 0 else number) := by
    cases made : SkipList.create maxHeight branching with
    | ok list =>
      refine ⟨list, fun _ => rfl, ?_⟩
      rw [mapM_eq_map (g := fun number => (list, if shared then 0 else number)) fun number _ => by
        simp only [made, bind, Except.bind, pure, Except.pure]] at listed
      exact (Except.ok.inj listed).symm
    | error failure =>
      cases count with
      | zero => exact ⟨{ head := [] }, by simp, (Except.ok.inj listed).symm⟩
      | succ count =>
        rw [List.range_succ_eq_map, List.mapM_cons, made] at listed
        cases listed
  obtain ⟨list, made, rfl⟩ := entered
  refine ⟨⟨rfl, rfl, ?_, ?_, rfl⟩, by simp⟩
  · intro store nodes found
    exact (List.mem_replicate.mp (List.mem_of_getElem? found)).2
  · intro number other store found
    simp only [List.getElem?_map, Option.map_eq_some_iff, Prod.mk.injEq] at found
    obtain ⟨same, inRange, rfl, rfl⟩ := found
    obtain ⟨inside, rfl⟩ := List.getElem?_eq_some_iff.mp inRange
    rw [List.length_range] at inside
    rw [List.getElem_range]
    refine ⟨⟨maxHeight, branching, made (Nat.zero_lt_of_lt inside)⟩, ?_⟩
    cases shared <;> simp [inside]

/-- A session with another arena behind its entries. -/
def onArena (session : SkipListSession) (arena : Arena) : SkipListSession :=
  { session with shelf := { session.shelf with arena } }

/-- A draft takes up a handle and holds the entry of its record. -/
theorem draft_cases (session : SkipListSession) (record : Record) :
    ∃ arena result, session.draft record = (session.onArena arena, result) ∧
      (∀ handle, arena.get handle = session.shelf.arena.get handle) ∧
      ∀ draft, result = .ok draft → record.encode = .ok draft.bytes := by
  refine ⟨(session.shelf.arena.allocate record.size).1, (session.draft record).2, rfl,
    fun _ => rfl, ?_⟩
  intro draft done
  simp only [SkipListSession.draft, bind_eq_ok] at done
  obtain ⟨blank, allocated, done⟩ := done
  obtain ⟨_, _, rfl⟩ := Arena.allocate_ok_iff.mp allocated
  obtain ⟨written, same⟩ : ∃ written, record.write (List.replicate record.size 0) = written :=
    ⟨_, rfl⟩
  obtain ⟨bytes, outcome⟩ := written
  simp only [same] at done
  cases outcome with
  | error failure => cases done
  | ok answer =>
    obtain rfl := Except.ok.inj done
    simp only [Record.encode, same]
    rfl

theorem publishDraft_ok (done : session.publishDraft draft = .ok next) :
    ∃ arena, session.shelf.arena.publish draft = .ok arena ∧ next = session.onArena arena := by
  obtain ⟨arena, published, same⟩ := bind_eq_ok.mp done
  exact ⟨arena, published, (Except.ok.inj same).symm⟩

/-- Linking a handle in takes it in or changes nothing. -/
theorem link_cases (session : SkipListSession) (number : Nat) (handle : Handle)
    (reply : SkipListReply) :
    (∃ next, session.link number handle reply = (next, .ok reply) ∧ next.shelf = session.shelf ∧
      next.heights = session.heights ∧ next.shared = session.shared ∧
      session.TakesIn next number handle) ∨
    ∃ failure, session.link number handle reply = (session, .error failure) := by
  cases found : session.find? number with
  | none => exact .inr ⟨_, by simp only [link, found]; rfl⟩
  | some listed =>
    obtain ⟨list, store, nodes⟩ := listed
    simp only [link, found]
    cases inserted : list.insert nodes session.heights session.shelf handle with
    | error failure => exact .inr ⟨_, rfl⟩
    | ok result =>
      obtain ⟨grown, longer, height⟩ := result
      obtain ⟨entry, read, inserted⟩ := bind_eq_ok.mp inserted
      obtain ⟨splice, place, inserted⟩ := bind_eq_ok.mp inserted
      exact .inl ⟨_, rfl, rfl, rfl, rfl,
        .intro found (.refl _) (.refl _) read place inserted rfl rfl⟩

/-- Linking a draft in publishes it and takes in its handle, or changes nothing. -/
theorem splice_cases (session : SkipListSession) (number : Nat) (draft : Draft) :
    (∃ next arena, session.splice number draft = (next, .ok (.handle draft.handle)) ∧
      session.shelf.arena.publish draft = .ok arena ∧ next.shelf = { session.shelf with arena } ∧
      next.heights = session.heights ∧ next.shared = session.shared ∧
      session.TakesIn next number draft.handle) ∨
    ∃ failure, session.splice number draft = (session, .error failure) := by
  cases found : session.find? number with
  | none => exact .inr ⟨_, by simp only [splice, found]; rfl⟩
  | some listed =>
    obtain ⟨list, store, nodes⟩ := listed
    simp only [splice, found, bind, Except.bind]
    cases place : list.spliceFor nodes session.shelf draft.bytes with
    | error failure => exact .inr ⟨_, rfl⟩
    | ok splice =>
      dsimp only
      cases publishing : session.publishDraft draft with
      | error failure => exact .inr ⟨_, rfl⟩
      | ok published =>
        dsimp only
        cases inserted : list.insertAt nodes session.heights splice draft.handle with
        | error failure => exact .inr ⟨_, rfl⟩
        | ok result =>
          obtain ⟨grown, longer, height⟩ := result
          obtain ⟨arena, stored, rfl⟩ := publishDraft_ok publishing
          obtain ⟨read, keeps⟩ := Arena.get_publish stored
          refine .inl ⟨_, arena, rfl, stored, rfl, rfl, rfl, ?_⟩
          exact .intro found (.refl _) ⟨rfl, keeps⟩ read place inserted rfl rfl

/-- A session keeps all entries when it publishes the entry of a record. -/
theorem extends_publish {arena new : Arena} (kept : ∀ handle, arena.get handle
      = session.shelf.arena.get handle)
    (encoded : record.encode = .ok draft.bytes) (published : arena.publish draft = .ok new)
    (shelf : next.shelf = { session.shelf with arena := new })
    (heights : next.heights = session.heights) (shared : next.shared = session.shared) :
    session.Extends next (some record) where
  shelf := by
    rw [shelf]
    exact ⟨rfl, fun found => (Arena.get_publish published).2 ((kept _).trans found)⟩
  heights := heights
  shared := shared
  published := by
    intro handle entry found
    rw [shelf] at found
    rcases Arena.get_of_publish published found with rfl | before
    · exact .inr ⟨record, rfl, encoded⟩
    · exact .inl ((kept handle).symm.trans before)

theorem extends_onArena {arena : Arena} (kept : ∀ handle, arena.get handle
      = session.shelf.arena.get handle) (record? : Option Record) :
    session.Extends (session.onArena arena) record? :=
  ⟨⟨rfl, fun found => (kept _).trans found⟩, rfl, rfl,
    fun found => .inl ((kept _).symm.trans found)⟩

theorem TakesIn.of_onArena {arena : Arena} (kept : session.shelf.arena.Keeps arena)
    (takesIn : (session.onArena arena).TakesIn next number handle) :
    session.TakesIn next number handle := by
  obtain ⟨found, later, earlier, read, place, done, stores, lists⟩ := takesIn
  have extended : session.shelf.Extends (session.onArena arena).shelf := ⟨rfl, kept⟩
  exact .intro found (extended.trans later) earlier read place done stores lists

/-- What comes of a step: it extends the session, and it links one handle into one list or leaves
all lists as they are. -/
structure Carries (session : SkipListSession) (command : SkipListCommand) : Prop where
  extended : session.Extends (session.execute command).1 command.record?
  lists : (session.LeavesLists (session.execute command).1 ∧
      ∀ number, session.linked number command = []) ∨
    ∃ number handle, session.TakesIn (session.execute command).1 number handle ∧
      ∀ other, session.linked other command = if other = number then [handle] else []

theorem linked_eq_nil {command : SkipListCommand} {error : StepError}
    (failed : (session.execute command).2 = .error error) (number : Nat) :
    session.linked number command = [] := by
  cases command <;> simp only [linked, failed]

theorem carries_failed {command : SkipListCommand} {error : StepError}
    (done : session.execute command = (next, .error error))
    (extended : session.Extends next command.record?) (leaves : session.LeavesLists next) :
    session.Carries command := by
  have failed : (session.execute command).2 = .error error := by rw [done]
  exact ⟨by rwa [done], .inl ⟨by rwa [done], linked_eq_nil failed⟩⟩

theorem carries_add (session : SkipListSession) (number : Nat) (record : Record) :
    session.Carries (.add number record) := by
  obtain ⟨arena, result, drafted, kept, encoded⟩ := session.draft_cases record
  cases result with
  | error failure =>
    exact carries_failed (by simp only [execute, drafted]; rfl) (extends_onArena kept _) ⟨rfl, rfl⟩
  | ok draft =>
    cases publishing : (session.onArena arena).publishDraft draft with
    | error failure =>
      exact carries_failed (by simp only [execute, drafted, publishing]; rfl)
        (extends_onArena kept _) ⟨rfl, rfl⟩
    | ok published =>
      obtain ⟨new, stored, rfl⟩ := publishDraft_ok publishing
      have extended : session.Extends (session.onArena new) (some record) :=
        extends_publish kept (encoded draft rfl) stored rfl rfl rfl
      rcases link_cases ((session.onArena arena).onArena new) number draft.handle
        (.handle draft.handle) with ⟨next, linked, shelf, heights, shared, takesIn⟩ | ⟨_, failed⟩
      · have done : session.execute (.add number record) = (next, .ok (.handle draft.handle)) := by
          simp only [execute, drafted, publishing, linked]
        refine ⟨?_, .inr ⟨number, draft.handle, ?_, ?_⟩⟩
        · rw [done]
          exact extends_publish kept (encoded draft rfl) stored shelf heights shared
        · rw [done]
          exact takesIn.of_onArena extended.shelf.keeps
        · intro other
          simp only [SkipListSession.linked, done, eq_comm]
      · exact carries_failed (by simp only [execute, drafted, publishing, failed]; rfl) extended
          ⟨rfl, rfl⟩

theorem carries_splice (session : SkipListSession) (number : Nat) (record : Record) :
    session.Carries (.splice number record) := by
  obtain ⟨arena, result, drafted, kept, encoded⟩ := session.draft_cases record
  cases result with
  | error failure =>
    exact carries_failed (by simp only [execute, drafted]; rfl) (extends_onArena kept _) ⟨rfl, rfl⟩
  | ok draft =>
    rcases splice_cases (session.onArena arena) number draft with
      ⟨next, new, spliced, stored, shelf, heights, shared, takesIn⟩ | ⟨_, failed⟩
    · have done : session.execute (.splice number record)
          = (next, .ok (.handle draft.handle)) := by
        simp only [execute, drafted, spliced]
      refine ⟨?_, .inr ⟨number, draft.handle, ?_, ?_⟩⟩
      · rw [done]
        exact extends_publish kept (encoded draft rfl) stored shelf heights shared
      · rw [done]
        exact takesIn.of_onArena (extends_onArena kept none).shelf.keeps
      · intro other
        simp only [linked, done, eq_comm]
    · exact carries_failed (by simp only [execute, drafted, failed]; rfl) (extends_onArena kept _)
        ⟨rfl, rfl⟩

theorem carries_publish (session : SkipListSession) (record : Record) :
    session.Carries (.publish record) := by
  obtain ⟨arena, result, drafted, kept, encoded⟩ := session.draft_cases record
  cases result with
  | error failure =>
    exact carries_failed (by simp only [execute, drafted]; rfl) (extends_onArena kept _) ⟨rfl, rfl⟩
  | ok draft =>
    cases publishing : (session.onArena arena).publishDraft draft with
    | error failure =>
      exact carries_failed (by simp only [execute, drafted, publishing, settle]; rfl)
        (extends_onArena kept _) ⟨rfl, rfl⟩
    | ok published =>
      obtain ⟨new, stored, rfl⟩ := publishDraft_ok publishing
      refine ⟨?_, .inl ⟨?_, fun _ => rfl⟩⟩
      · simp only [execute, drafted, publishing, settle]
        exact extends_publish kept (encoded draft rfl) stored rfl rfl rfl
      · simp only [execute, drafted, publishing, settle]
        exact ⟨rfl, rfl⟩

/-- Every step extends the session, and links one handle into one list or leaves all lists as they
are. -/
theorem carries (session : SkipListSession) (command : SkipListCommand) :
    session.Carries command := by
  cases command with
  | add number record => exact session.carries_add number record
  | splice number record => exact session.carries_splice number record
  | publish record => exact session.carries_publish record
  | link number handle =>
    rcases session.link_cases number handle .done with
      ⟨next, done, shelf, heights, shared, takesIn⟩ | ⟨error, failed⟩
    · have answer : session.execute (.link number handle) = (next, .ok .done) := done
      refine ⟨?_, .inr ⟨number, handle, by rwa [answer], ?_⟩⟩
      · rw [answer]
        exact ⟨shelf ▸ .refl _, heights, shared, fun found => .inl (shelf ▸ found)⟩
      · intro other
        simp only [linked, answer, eq_comm]
    · exact carries_failed failed (.refl _ _) ⟨rfl, rfl⟩
  | has | hasRaw | isEmpty | handles | nodeCount | arenaSize =>
    exact ⟨.refl _ _, .inl ⟨⟨rfl, rfl⟩, fun _ => rfl⟩⟩
  | openCursor name number =>
    cases found : session.find? number with
    | none =>
      exact carries_failed (by simp only [execute, found]; rfl) (.refl _ _) ⟨rfl, rfl⟩
    | some listed =>
      have done : session.execute (.openCursor name number)
          = ({ session with cursors := session.cursors.put name (number, none) }, .ok .done) := by
        simp only [execute, found]
      refine ⟨?_, .inl ⟨?_, fun _ => rfl⟩⟩ <;> rw [done]
      · exact ⟨.refl _, rfl, rfl, .inl⟩
      · exact ⟨rfl, rfl⟩
  | cursor name command =>
    cases opened : session.cursors.find? name with
    | none => exact carries_failed (by simp only [execute, opened]; rfl) (.refl _ _) ⟨rfl, rfl⟩
    | some cursor =>
      obtain ⟨number, place⟩ := cursor
      cases found : session.find? number with
      | none =>
        exact carries_failed (by simp only [execute, opened, found]; rfl) (.refl _ _) ⟨rfl, rfl⟩
      | some listed =>
        refine ⟨?_, .inl ⟨?_, fun _ => rfl⟩⟩ <;> simp only [execute, opened, found]
        · exact ⟨.refl _, rfl, rfl, .inl⟩
        · exact ⟨rfl, rfl⟩

theorem about_of_into {command : SkipListCommand} {other : Nat}
    (into : command.into? = some other) :
    session.about command = some other := by
  cases command with
  | add | splice | link => exact into
  | _ => cases into

/-- A step links into the list only that it is about. -/
theorem linked_eq_nil_of_about {command : SkipListCommand}
    (apart : session.about command ≠ some number) : session.linked number command = [] := by
  cases command with
  | add listed | splice listed | link listed =>
    have different : listed ≠ number := fun same => apart (congrArg some same)
    simp only [linked]
    split <;> simp_all
  | _ => rfl

theorem settle_cursors {changed : Except Failure SkipListSession}
    (kept : ∀ next, changed = .ok next → next.cursors = session.cursors) :
    (session.settle reply changed).1.cursors = session.cursors := by
  cases changed with
  | error failure => rfl
  | ok next => exact kept next rfl

theorem link_cursors (session : SkipListSession) (number : Nat) (handle : Handle)
    (reply : SkipListReply) : (session.link number handle reply).1.cursors = session.cursors := by
  simp only [link]
  cases session.find? number with
  | none => rfl
  | some listed =>
    refine settle_cursors fun next done => ?_
    obtain ⟨result, _, same⟩ := bind_eq_ok.mp done
    obtain rfl := Except.ok.inj same
    rfl

theorem splice_cursors (session : SkipListSession) (number : Nat) (draft : Draft) :
    (session.splice number draft).1.cursors = session.cursors := by
  simp only [splice]
  cases session.find? number with
  | none => rfl
  | some listed =>
    refine settle_cursors fun next done => ?_
    obtain ⟨splice, _, done⟩ := bind_eq_ok.mp done
    obtain ⟨published, publishing, done⟩ := bind_eq_ok.mp done
    obtain ⟨result, _, same⟩ := bind_eq_ok.mp done
    obtain ⟨arena, _, rfl⟩ := publishDraft_ok publishing
    obtain rfl := Except.ok.inj same
    rfl

/-- Where cursors are does not depend on what is linked in. -/
theorem execute_cursors (session : SkipListSession) {command : SkipListCommand} {other : Nat}
    (into : command.into? = some other) :
    (session.execute command).1.cursors = session.cursors := by
  cases command with
  | add listed record =>
    obtain ⟨arena, result, drafted, _⟩ := session.draft_cases record
    simp only [execute, drafted]
    cases result with
    | error failure => rfl
    | ok draft =>
      dsimp only
      cases publishing : (session.onArena arena).publishDraft draft with
      | error failure => rfl
      | ok published =>
        obtain ⟨new, _, rfl⟩ := publishDraft_ok publishing
        exact link_cursors ..
  | splice listed record =>
    obtain ⟨arena, result, drafted, _⟩ := session.draft_cases record
    simp only [execute, drafted]
    cases result with
    | error failure => rfl
    | ok draft => exact splice_cursors ..
  | link listed handle => exact link_cursors ..
  | _ => cases into

/-- A cursor over a list was open before every step that is not about the list. -/
theorem find?_of_execute {command : SkipListCommand} {name : String} {place : Option NodeId}
    (apart : session.about command ≠ some number)
    (opened : (session.execute command).1.cursors.find? name = some (number, place)) :
    session.cursors.find? name = some (number, place) := by
  have earlier : ∀ {other : String} {listed : Nat} {at? : Option NodeId}, listed ≠ number →
      (session.cursors.put other (listed, at?)).find? name = some (number, place) →
      session.cursors.find? name = some (number, place) := by
    intro other listed at? different found
    rw [Named.find?_put] at found
    split at found
    · exact absurd (Prod.mk.inj (Option.some.inj found)).1 different
    · exact found
  cases command with
  | add | splice | link => rwa [session.execute_cursors rfl] at opened
  | publish record =>
    obtain ⟨arena, result, drafted, _⟩ := session.draft_cases record
    simp only [execute, drafted] at opened
    cases result with
    | error failure => exact opened
    | ok draft =>
      dsimp only at opened
      rw [settle_cursors] at opened
      · exact opened
      · intro next done
        obtain ⟨new, _, rfl⟩ := publishDraft_ok done
        rfl
  | has | hasRaw | isEmpty | handles | nodeCount | arenaSize => exact opened
  | openCursor other listed =>
    simp only [execute] at opened
    cases found : session.find? listed with
    | none => rwa [found] at opened
    | some _ =>
      rw [found] at opened
      exact earlier (fun same => apart (congrArg some same)) opened
  | cursor other moved =>
    simp only [execute] at opened
    cases before : session.cursors.find? other with
    | none => rwa [before] at opened
    | some cursor =>
      obtain ⟨listed, at?⟩ := cursor
      rw [before] at opened
      cases found : session.find? listed with
      | none => simpa only [found] using opened
      | some parts =>
        simp only [found] at opened
        refine earlier (fun same => apart ?_) opened
        rw [about, before, Option.map_some, same]

/-- A session has so many lists, each on one of its node stores. -/
structure Housed (session : SkipListSession) (count : Nat) : Prop where
  length : session.lists.length = count
  stores : ∀ {number : Nat} {list store}, session.lists[number]? = some (list, store) →
    store < session.stores.length

namespace Housed

variable {count : Nat} {order : KeyOrder}

theorem of_fresh (new : session.Fresh order) : session.Housed session.lists.length where
  length := rfl
  stores found := (List.getElem?_eq_some_iff.mp (new.lists found).2).1

theorem find? (housed : session.Housed count) (inside : number < count) :
    ∃ list store nodes, session.find? number = some (list, store, nodes) := by
  have within : number < session.lists.length := housed.length.symm ▸ inside
  obtain ⟨⟨list, store⟩, listed⟩ : ∃ listed, session.lists[number]? = some listed :=
    ⟨_, List.getElem?_eq_getElem within⟩
  exact ⟨list, store, _, find?_eq_some_iff.mpr
    ⟨listed, List.getElem?_eq_getElem (housed.stores listed)⟩⟩

theorem execute (housed : session.Housed count) (command : SkipListCommand) :
    (session.execute command).1.Housed count := by
  rcases (session.carries command).lists with ⟨leaves, _⟩ | ⟨number, handle, takesIn, _⟩
  · exact ⟨leaves.lists ▸ housed.length, fun found =>
      leaves.stores ▸ housed.stores (leaves.lists ▸ found)⟩
  · obtain ⟨found, _, _, _, _, _, stores, lists⟩ := takesIn
    obtain ⟨inLists, _⟩ := find?_eq_some_iff.mp found
    refine ⟨by rw [lists, List.length_set]; exact housed.length, fun foundNow => ?_⟩
    rw [stores, List.length_set]
    rw [lists] at foundNow
    rcases getElem?_set_cases foundNow with ⟨_, same⟩ | ⟨_, old⟩
    · exact (Prod.mk.inj same).2 ▸ housed.stores inLists
    · exact housed.stores old

theorem run (housed : session.Housed count) (commands : List SkipListCommand) :
    (session.run commands).Housed count := by
  induction commands generalizing session with
  | nil => exact housed
  | cons command rest ih => exact ih (housed.execute command)

end Housed

end SkipListSession

end WriteBuffer
