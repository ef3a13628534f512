import Mathlib
import WriteBuffer.Proofs.SkipList.Sharing

/-!
Lists on a common node store do not notice each other. A session that has one of them on a store of its
own, and to which only the steps about that list come, is answered as the common session
(`SkipListSession.Alike.run`). The arena is common to both, so handles and entries are the same, and the
towers of the list get the heights that were drawn for them in the common session.
-/
namespace WriteBuffer

/-- A step that reads a list, or moves a cursor once. -/
def SkipListCommand.IsReading : SkipListCommand → Bool
  | has .. | hasRaw .. | isEmpty _ | handles _ => true
  | cursor _ command => command.IsStep
  | _ => false

namespace SkipListSession

open SkipList (Copy Reflects)

/-- The answers to the steps of a run that are about a list. -/
def answersAbout (number : Nat) :
    SkipListSession → List SkipListCommand → List (Except StepError SkipListReply)
  | _, [] => []
  | session, command :: rest =>
    let (next, answer) := session.execute command
    if session.about command = some number then answer :: answersAbout number next rest
    else answersAbout number next rest

/-- The answers of a session to which only the steps about a list come. What other steps do to the
common arena, it finds done. -/
def answersAlone (number : Nat) :
    (common own : SkipListSession) → List SkipListCommand → List (Except StepError SkipListReply)
  | _, _, [] => []
  | common, own, command :: rest =>
    let next := (common.execute command).1
    if common.about command = some number then
      let (after, answer) := own.execute command
      answer :: answersAlone number next after rest
    else answersAlone number next { own with shelf := next.shelf } rest

/-- The heights that a run draws for the towers of a list. -/
def draws (number : Nat) : SkipListSession → List SkipListCommand → List Nat
  | _, [] => []
  | session, command :: rest =>
    (session.linked number command).map (fun _ => session.heights session.sharedNodes) ++
      draws number (session.execute command).1 rest

/-- A session with the same lists, each on a store of its own. -/
def alone (session : SkipListSession) (heights : Heights) : SkipListSession :=
  { session with
    heights
    shared := false
    stores := session.lists.map fun _ => .empty
    lists := session.lists.mapIdx fun number listed => (listed.1, number) }

variable {common own session next : SkipListSession} {number store levels : Nat} {copy : Copy}
  {copies : Nat → Copy} {nodes grown : NodeStore} {list longer : SkipList} {arena : Arena}
  {command question : SkipListCommand} {record : Record} {draft : Draft} {handle : Handle}
  {reply : SkipListReply}

/-- What is read of a list in one session can be read of its copy in another one. -/
structure Mirrors (own common : SkipListSession) (number : Nat) (copy : Copy) : Prop where
  found : ∃ store, own.find? number = some (copy.list, store, copy.nodes)
  reflects : ∃ list store nodes, common.find? number = some (list, store, nodes) ∧
    Reflects copy.onNode id copy.list copy.nodes own.shelf list nodes common.shelf
  cursors : ∀ {name place}, common.cursors.find? name = some (number, place) →
    ∃ start, own.cursors.find? name = some (number, start) ∧ copy.Placed place start

/-- Readings change nothing but where a cursor is. -/
theorem execute_reading (session : SkipListSession) (reads : question.IsReading = true) :
    ∃ cursors, (session.execute question).1 = { session with cursors } := by
  cases question with
  | has | hasRaw | isEmpty | handles => exact ⟨session.cursors, rfl⟩
  | cursor name command =>
    simp only [execute]
    cases session.cursors.find? name with
    | none => exact ⟨session.cursors, rfl⟩
    | some cursor =>
      obtain ⟨number, place⟩ := cursor
      dsimp only
      cases session.find? number with
      | none => exact ⟨session.cursors, rfl⟩
      | some listed => exact ⟨_, rfl⟩
  | _ => cases reads

/-- A reading of a list is answered as one of its copy. -/
theorem Mirrors.read (mirrors : Mirrors own common number copy) (reads : question.IsReading = true)
    (about : common.about question = some number) :
    (common.execute question).2 = (own.execute question).2 ∧
      Mirrors (own.execute question).1 (common.execute question).1 number copy := by
  obtain ⟨storeOwn, foundOwn⟩ := mirrors.found
  obtain ⟨list, store, nodes, found, reflects⟩ := mirrors.reflects
  cases question with
  | has listed key =>
    obtain rfl := Option.some.inj about
    simp only [execute, ask, found, foundOwn, reflects.contains, true_and]
    exact mirrors
  | hasRaw listed internalKey =>
    obtain rfl := Option.some.inj about
    simp only [execute, ask, found, foundOwn, reflects.contains, true_and]
    exact mirrors
  | isEmpty listed =>
    obtain rfl := Option.some.inj about
    simp only [execute, ask, found, foundOwn, reflects.renamed.isEmpty, true_and]
    exact mirrors
  | handles listed =>
    obtain rfl := Option.some.inj about
    have same : list.handles nodes = copy.list.handles copy.nodes :=
      ((reflects.renamed.handles reflects.steady).mono fun _ _ same => same.trans (List.map_id _)).eq
    simp only [execute, ask, found, foundOwn, same, true_and]
    exact mirrors
  | cursor name command =>
    obtain ⟨⟨listed, place⟩, opened, same⟩ := Option.map_eq_some_iff.mp about
    obtain rfl : listed = number := same
    obtain ⟨start, openedOwn, placed⟩ := mirrors.cursors opened
    obtain ⟨arrived, answer⟩ := reflects.bisimilar.execute placed (.inl reads)
    simp only [execute, opened, openedOwn, found, foundOwn, answer, true_and]
    refine ⟨⟨storeOwn, foundOwn⟩, ⟨list, store, nodes, found, reflects⟩, ?_⟩
    intro other at? openedNow
    rw [Named.find?_put] at openedNow ⊢
    split at openedNow
    · next same =>
      obtain rfl := (Prod.mk.inj (Option.some.inj openedNow)).2
      exact ⟨_, by rw [if_pos same], arrived⟩
    · next different =>
      rw [if_neg different]
      exact mirrors.cursors openedNow
  | _ => cases reads

/-- Two sessions have a list in common, one of them among other lists on its store. -/
structure Alike (own common : SkipListSession) (number : Nat) (nodes : NodeStore)
    (copies : Nat → Copy) : Prop where
  sharing : common.Sharing nodes copies
  listed : number < common.lists.length
  shelf : own.shelf = common.shelf
  found : ∃ store, own.find? number = some ((copies number).list, store, (copies number).nodes)
  cursors : ∀ {name place}, common.cursors.find? name = some (number, place) →
    ∃ start, own.cursors.find? name = some (number, start) ∧ (copies number).Placed place start

/-- Steps of both sessions are refused alike, or both link one handle into the list. -/
def LinkAlike (own common : SkipListSession) (number : Nat) (copies : Nat → Copy)
    (reply : SkipListReply) (right left : Stepped SkipListSession SkipListReply) : Prop :=
  (∃ error, left = (common, .error error) ∧ right = (own, .error error)) ∨
  ∃ next nextOwn nodes copiesNow, left = (next, .ok reply) ∧ right = (nextOwn, .ok reply) ∧
    Alike nextOwn next number nodes copiesNow ∧
    (copiesNow number).nodes.size = (copies number).nodes.size + 1

theorem find?_replaced (found : session.find? number = some (list, store, nodes)) (levels : Nat) :
    (session.replaced number store (grown, longer, levels)).find? number
      = some (longer, store, grown) := by
  obtain ⟨inLists, inStores⟩ := find?_eq_some_iff.mp found
  have low := (List.getElem?_eq_some_iff.mp inLists).1
  have lowStore := (List.getElem?_eq_some_iff.mp inStores).1
  exact find?_eq_some_iff.mpr ⟨List.getElem?_set_self low, List.getElem?_set_self lowStore⟩

theorem draft_of_shelf_eq (same : own.shelf = common.shelf) {result : Except Failure Draft}
    (drafted : common.draft record = (common.onArena arena, result)) :
    own.draft record = (own.onArena arena, result) := by
  have draftedOwn : own.draft record = (own.onArena (common.draft record).1.shelf.arena,
      (common.draft record).2) := by
    simp only [draft, onArena, same]
  rw [draftedOwn, drafted]
  rfl

/-- A step is answered alike in both sessions, which go on alike. -/
structure Agree (own common : SkipListSession) (number : Nat) (copies : Nat → Copy)
    (command : SkipListCommand) : Prop where
  answer : (common.execute command).2 = (own.execute command).2
  after : ∃ nodes copiesNow,
    Alike (own.execute command).1 (common.execute command).1 number nodes copiesNow ∧
    (copiesNow number).nodes.size
      = (copies number).nodes.size + (common.linked number command).length

theorem Agree.of_refused {middle middleOwn : SkipListSession} {error : StepError}
    (alike : Alike middleOwn middle number nodes copies)
    (refused : common.execute command = (middle, .error error))
    (refusedOwn : own.execute command = (middleOwn, .error error)) :
    Agree own common number copies command := by
  refine ⟨by rw [refused, refusedOwn], nodes, copies, by rwa [refused, refusedOwn], ?_⟩
  rw [linked_eq_nil (congrArg Prod.snd refused), List.length_nil, Nat.add_zero]

/-- Steps that come to linking in one handle, if they are not refused, are answered alike, if the tower
that is drawn for it is of the same height in both sessions. -/
theorem Agree.of_linkAlike {middle middleOwn : SkipListSession}
    {left right : Stepped SkipListSession SkipListReply}
    (alike : Alike middleOwn middle number nodes copies)
    (drawn : common.linked number command ≠ [] →
      own.heights (copies number).nodes.size = common.heights nodes.size)
    (both : ((∃ next, left = (next, .ok reply)) →
        own.heights (copies number).nodes.size = common.heights nodes.size) →
      LinkAlike middleOwn middle number copies reply right left)
    (same : common.execute command = left) (sameOwn : own.execute command = right)
    (counted : (common.execute command).2 = .ok reply →
      (common.linked number command).length = 1) : Agree own common number copies command := by
  have sameHeight : (∃ next, left = (next, .ok reply)) →
      own.heights (copies number).nodes.size = common.heights nodes.size := by
    rintro ⟨next, done⟩
    refine drawn (List.ne_nil_of_length_pos ?_)
    rw [counted (congrArg Prod.snd (same.trans done))]
    exact Nat.one_pos
  rcases both sameHeight with
    ⟨error, rfl, rfl⟩ | ⟨next, nextOwn, nodesNow, copiesNow, rfl, rfl, alikeNow, size⟩
  · exact .of_refused alike same sameOwn
  · refine ⟨by rw [same, sameOwn], nodesNow, copiesNow, by rwa [same, sameOwn], ?_⟩
    rw [size, counted (congrArg Prod.snd same)]

theorem publishDraft_eq (session : SkipListSession) (draft : Draft) :
    session.publishDraft draft = (session.shelf.arena.publish draft).map session.onArena := by
  simp only [publishDraft, bind, Except.bind]
  cases session.shelf.arena.publish draft <;> rfl

namespace Alike

theorem exists_list (alike : Alike own common number nodes copies) :
    ∃ list, common.lists[number]? = some (list, 0) := by
  have listed := List.getElem?_eq_getElem alike.listed
  obtain ⟨zero, _⟩ := alike.sharing.isOf listed
  exact ⟨_, listed.trans (congrArg some (Prod.ext rfl zero))⟩

theorem mirrors (alike : Alike own common number nodes copies) :
    Mirrors own common number (copies number) where
  found := alike.found
  reflects := by
    obtain ⟨list, listed⟩ := alike.exists_list
    refine ⟨list, 0, nodes, alike.sharing.find?_eq listed, ?_⟩
    rw [alike.shelf]
    exact (alike.sharing.isOf listed).2.reflects alike.sharing.published (.refl _)
  cursors := alike.cursors

theorem read (alike : Alike own common number nodes copies) (reads : question.IsReading = true)
    (about : common.about question = some number) :
    (common.execute question).2 = (own.execute question).2 ∧
      Alike (own.execute question).1 (common.execute question).1 number nodes copies := by
  obtain ⟨answer, mirrors⟩ := alike.mirrors.read reads about
  obtain ⟨cursors, after⟩ := common.execute_reading reads
  obtain ⟨cursorsOwn, afterOwn⟩ := own.execute_reading reads
  refine ⟨answer, ⟨?_, ?_, ?_, mirrors.found, mirrors.cursors⟩⟩
  · rw [after]
    exact alike.sharing.leavesLists (.refl _) ⟨rfl, rfl⟩
  · rw [after]
    exact alike.listed
  · rw [after, afterOwn]
    exact alike.shelf

/-- Both sessions may find other drafts handed out and other entries published. -/
theorem withArena (alike : Alike own common number nodes copies)
    (kept : common.shelf.arena.Keeps arena) :
    Alike (own.onArena arena) (common.onArena arena) number nodes copies where
  sharing := alike.sharing.leavesLists ⟨rfl, kept⟩ ⟨rfl, rfl⟩
  listed := alike.listed
  shelf := by simp only [onArena, alike.shelf]
  found := alike.found
  cursors := alike.cursors

/-- A place found for an entry in both sessions can be used in both, with towers of the same
height. -/
theorem linked (alike : Alike own common number nodes copies) {before : Shelf} {entry : Bytes}
    {splice others : Splice} (few : nodes.size < UInt32.size - 1)
    (listed : common.lists[number]? = some (list, 0))
    (found : own.find? number = some ((copies number).list, store, (copies number).nodes))
    (searched : common.shelf.Extends before) (kept : common.shelf.arena.Keeps arena)
    (read : arena.get handle = .ok entry)
    (place : list.spliceFor nodes before entry = .ok splice)
    (placeOwn : (copies number).list.spliceFor (copies number).nodes before entry = .ok others) :
    ∃ result, list.insertAt nodes common.heights splice handle = .ok result ∧
      (own.heights (copies number).nodes.size = common.heights nodes.size →
        ∃ resultOwn nodesNow copiesNow,
          (copies number).list.insertAt (copies number).nodes own.heights others handle
            = .ok resultOwn ∧
          Alike ((own.onArena arena).replaced number store resultOwn)
            ((common.onArena arena).replaced number 0 result) number nodesNow copiesNow ∧
          (copiesNow number).nodes.size = (copies number).nodes.size + 1) := by
  have room := alike.sharing.packed.push_succeeds (by rwa [alike.sharing.reserved])
  obtain ⟨⟨grown, longer, levels⟩, done⟩ := SkipList.insertAt_succeeds place common.heights handle room
  refine ⟨_, done, fun same => ?_⟩
  let next := (common.onArena arena).replaced number 0 (grown, longer, levels)
  have stores : next.stores = [grown] := by
    simp only [next, replaced, onArena, alike.sharing.stores, List.set_cons_zero]
  have lists : next.lists = common.lists.set number (longer, 0) := rfl
  have extended : common.shelf.Extends next.shelf := ⟨rfl, kept⟩
  obtain ⟨places, copy, placeAgain, doneOwn, sharing, size, placed⟩ :=
    alike.sharing.grows listed searched extended read place done stores lists own.heights same
  obtain rfl : others = places := Except.ok.inj (placeOwn.symm.trans placeAgain)
  refine ⟨_, grown, _, doneOwn, ⟨sharing, ?_, ?_, ⟨store, ?_⟩, ?_⟩, ?_⟩
  · have length : next.lists.length = common.lists.length := by rw [lists, List.length_set]
    exact alike.listed.trans_eq length.symm
  · simp only [replaced, onArena, alike.shelf]
  · have foundNow : (own.onArena arena).find? number
        = some ((copies number).list, store, (copies number).nodes) := found
    rw [Function.update_self]
    exact find?_replaced foundNow levels
  · intro name at? opened
    obtain ⟨start, openedOwn, placedOld⟩ := alike.cursors opened
    rw [Function.update_self]
    exact ⟨start, openedOwn, placed placedOld⟩
  · rw [Function.update_self, size]

/-- Handles are linked in alike. -/
theorem link (alike : Alike own common number nodes copies) (few : nodes.size < UInt32.size - 1)
    (handle : Handle) (reply : SkipListReply)
    (drawn : (∃ next, common.link number handle reply = (next, .ok reply)) →
      own.heights (copies number).nodes.size = common.heights nodes.size) :
    LinkAlike own common number copies reply (own.link number handle reply)
      (common.link number handle reply) := by
  obtain ⟨list, listed⟩ := alike.exists_list
  obtain ⟨store, foundOwn⟩ := alike.found
  have found := alike.sharing.find?_eq listed
  simp only [SkipListSession.link, found, foundOwn, SkipList.insert, alike.shelf, bind, Except.bind]
    at drawn ⊢
  cases read : common.shelf.arena.get handle with
  | error failure => exact .inl ⟨_, rfl, rfl⟩
  | ok entry =>
    rcases (alike.sharing.spliceFor listed (.refl _) entry).cases with
      ⟨splice, others, place, placeOwn, _⟩ | ⟨failure, refused, refusedOwn⟩
    · obtain ⟨result, done, rest⟩ :=
        alike.linked few listed foundOwn (.refl _) id read place placeOwn
      simp only [read, place, done] at drawn
      obtain ⟨resultOwn, nodesNow, copiesNow, doneOwn, alikeNow, size⟩ := rest (drawn ⟨_, rfl⟩)
      have unmoved : own.onArena common.shelf.arena = own := by
        rw [← alike.shelf]
        rfl
      rw [unmoved] at alikeNow
      simp only [place, placeOwn, done, doneOwn]
      exact .inr ⟨_, _, nodesNow, copiesNow, rfl, rfl, alikeNow, size⟩
    · exact .inl ⟨.failed failure, by simp only [refused, settle],
        by simp only [refusedOwn, settle]⟩

/-- Drafts are linked in and published alike. -/
theorem splice (alike : Alike own common number nodes copies) (few : nodes.size < UInt32.size - 1)
    (draft : Draft)
    (drawn : (∃ next, common.splice number draft = (next, .ok (.handle draft.handle))) →
      own.heights (copies number).nodes.size = common.heights nodes.size) :
    LinkAlike own common number copies (.handle draft.handle) (own.splice number draft)
      (common.splice number draft) := by
  obtain ⟨list, listed⟩ := alike.exists_list
  obtain ⟨store, foundOwn⟩ := alike.found
  have found := alike.sharing.find?_eq listed
  simp only [SkipListSession.splice, found, foundOwn, publishDraft, alike.shelf, bind, Except.bind]
    at drawn ⊢
  rcases (alike.sharing.spliceFor listed (.refl _) draft.bytes).cases with
    ⟨splice, others, place, placeOwn, _⟩ | ⟨failure, refused, refusedOwn⟩
  · simp only [place, placeOwn] at drawn ⊢
    cases published : common.shelf.arena.publish draft with
    | error failure => exact .inl ⟨_, rfl, rfl⟩
    | ok arena =>
      obtain ⟨read, kept⟩ := Arena.get_publish published
      obtain ⟨result, done, rest⟩ :=
        alike.linked few listed foundOwn (.refl _) kept read place placeOwn
      simp only [published, pure, Except.pure, done] at drawn ⊢
      obtain ⟨resultOwn, nodesNow, copiesNow, doneOwn, alikeNow, size⟩ := rest (drawn ⟨_, rfl⟩)
      simp only [doneOwn]
      simp only [onArena, alike.shelf] at alikeNow
      exact .inr ⟨_, _, nodesNow, copiesNow, rfl, rfl, alikeNow, size⟩
  · exact .inl ⟨.failed failure, by simp only [refused, settle], by simp only [refusedOwn, settle]⟩

theorem drafted (alike : Alike own common number nodes copies) (record : Record) :
    ∃ arena result, common.draft record = (common.onArena arena, result) ∧
      own.draft record = (own.onArena arena, result) ∧
      Alike (own.onArena arena) (common.onArena arena) number nodes copies := by
  obtain ⟨arena, result, drafted, kept, _⟩ := common.draft_cases record
  exact ⟨arena, result, drafted, draft_of_shelf_eq alike.shelf drafted,
    alike.withArena fun found => (kept _).trans found⟩

section Steps

variable (alike : Alike own common number nodes copies) (few : nodes.size < UInt32.size - 1)
include alike few

/-- A record is published and then linked in alike. -/
theorem execute_add (record : Record)
    (drawn : common.linked number (.add number record) ≠ [] →
      own.heights (copies number).nodes.size = common.heights nodes.size) :
    Agree own common number copies (.add number record) := by
  obtain ⟨arena, result, drafted, draftedOwn, alike⟩ := alike.drafted record
  cases result with
  | error failure =>
    exact .of_refused alike (by simp only [SkipListSession.execute, drafted]; rfl)
      (by simp only [SkipListSession.execute, draftedOwn])
  | ok draft =>
    have publishing := fun session : SkipListSession =>
      (session.onArena arena).publishDraft_eq draft
    simp only [onArena] at publishing
    cases published : arena.publish draft with
    | error failure =>
      simp only [published, Except.map] at publishing
      exact .of_refused alike
        (by simp only [SkipListSession.execute, drafted, onArena, publishing]; rfl)
        (by simp only [SkipListSession.execute, draftedOwn, onArena, publishing])
    | ok new =>
      simp only [published, Except.map] at publishing
      have alike := alike.withArena (Arena.get_publish published).2
      exact .of_linkAlike alike drawn (alike.link few draft.handle (.handle draft.handle))
        (by simp only [SkipListSession.execute, drafted, onArena, publishing])
        (by simp only [SkipListSession.execute, draftedOwn, onArena, publishing])
        fun done => by simp only [SkipListSession.linked, done, if_true, List.length_singleton]

theorem execute_splice (record : Record)
    (drawn : common.linked number (.splice number record) ≠ [] →
      own.heights (copies number).nodes.size = common.heights nodes.size) :
    Agree own common number copies (.splice number record) := by
  obtain ⟨arena, result, drafted, draftedOwn, alike⟩ := alike.drafted record
  cases result with
  | error failure =>
    exact .of_refused alike (by simp only [SkipListSession.execute, drafted]; rfl)
      (by simp only [SkipListSession.execute, draftedOwn])
  | ok draft =>
    exact .of_linkAlike alike drawn (alike.splice few draft)
      (by simp only [SkipListSession.execute, drafted])
      (by simp only [SkipListSession.execute, draftedOwn])
      fun done => by simp only [SkipListSession.linked, done, if_true, List.length_singleton]

theorem execute_link (handle : Handle)
    (drawn : common.linked number (.link number handle) ≠ [] →
      own.heights (copies number).nodes.size = common.heights nodes.size) :
    Agree own common number copies (.link number handle) :=
  .of_linkAlike alike drawn (alike.link few handle .done) rfl rfl fun done => by
    simp only [SkipListSession.linked, done, if_true, List.length_singleton]

omit few in
/-- Cursors are opened alike, at no entry. -/
theorem execute_openCursor (name : String) :
    Agree own common number copies (.openCursor name number) := by
  obtain ⟨list, inLists⟩ := alike.exists_list
  obtain ⟨store, foundOwn⟩ := alike.found
  have found := alike.sharing.find?_eq inLists
  have done : common.execute (.openCursor name number)
      = ({ common with cursors := common.cursors.put name (number, none) }, .ok .done) := by
    simp only [SkipListSession.execute, found]
  have doneOwn : own.execute (.openCursor name number)
      = ({ own with cursors := own.cursors.put name (number, none) }, .ok .done) := by
    simp only [SkipListSession.execute, foundOwn]
  refine ⟨by rw [done, doneOwn], nodes, copies, ?_, rfl⟩
  rw [done, doneOwn]
  refine ⟨alike.sharing.leavesLists (.refl _) ⟨rfl, rfl⟩, alike.listed, alike.shelf,
    ⟨store, foundOwn⟩, ?_⟩
  intro other place opened
  rw [Named.find?_put] at opened ⊢
  split at opened
  · next same =>
    obtain rfl := (Prod.mk.inj (Option.some.inj opened)).2
    exact ⟨none, by rw [if_pos same], rfl, SkipList.within_none _⟩
  · next different =>
    rw [if_neg different]
    exact alike.cursors opened

/-- Steps about the list are answered alike, and what the common session links into it the other one
does as well. -/
theorem execute (about : common.about command = some number)
    (steps : ∀ name moved, command = .cursor name moved → moved.IsStep = true)
    (drawn : common.linked number command ≠ [] →
      own.heights (copies number).nodes.size = common.heights nodes.size) :
    Agree own common number copies command := by
  cases command with
  | add listed record =>
    obtain rfl : listed = number := Option.some.inj about
    exact alike.execute_add few record drawn
  | splice listed record =>
    obtain rfl : listed = number := Option.some.inj about
    exact alike.execute_splice few record drawn
  | link listed handle =>
    obtain rfl : listed = number := Option.some.inj about
    exact alike.execute_link few handle drawn
  | openCursor name listed =>
    obtain rfl : listed = number := Option.some.inj about
    exact alike.execute_openCursor name
  | has | hasRaw | isEmpty | handles =>
    obtain ⟨answer, after⟩ := alike.read rfl about
    exact ⟨answer, nodes, copies, after, rfl⟩
  | cursor name moved =>
    have reads : (SkipListCommand.cursor name moved).IsReading = true := steps name moved rfl
    obtain ⟨answer, after⟩ := alike.read reads about
    exact ⟨answer, nodes, copies, after, rfl⟩
  | publish | nodeCount | arenaSize => cases about

end Steps

theorem elsewhere (alike : Alike own common number nodes copies)
    (apart : common.about command ≠ some number) :
    ∃ nodesNow copiesNow, Alike { own with shelf := (common.execute command).1.shelf }
      (common.execute command).1 number nodesNow copiesNow ∧
        copiesNow number = copies number := by
  obtain ⟨nodesNow, copiesNow, sharing, kept⟩ := alike.sharing.execute command
  have same := kept number (linked_eq_nil_of_about apart)
  refine ⟨nodesNow, copiesNow, ⟨sharing, ?_, rfl, same ▸ alike.found, fun opened => ?_⟩, same⟩
  · exact alike.listed.trans_eq (alike.sharing.housed.execute command).length.symm
  · obtain ⟨start, openedOwn, placed⟩ := alike.cursors (find?_of_execute apart opened)
    exact ⟨start, openedOwn, same ▸ placed⟩

/-- What is linked into another list changes no answer about this one. -/
theorem unmoved (alike : Alike own common number nodes copies) {other : Nat}
    (into : command.into? = some other) (apart : other ≠ number)
    (reads : question.IsReading = true) (about : common.about question = some number) :
    ((common.execute command).1.execute question).2 = (common.execute question).2 := by
  have notAbout : common.about command ≠ some number := by
    rw [about_of_into into]
    exact fun same => apart (Option.some.inj same)
  have cursors := common.execute_cursors into
  obtain ⟨nodesNow, copiesNow, after, same⟩ := alike.elsewhere notAbout
  obtain ⟨list, listed⟩ := after.exists_list
  have isOf := (after.sharing.isOf listed).2
  rw [same] at isOf
  have extended := (common.carries command).extended.shelf
  have mirrors : Mirrors own (common.execute command).1 number (copies number) := by
    refine ⟨alike.found, ⟨list, 0, nodesNow, after.sharing.find?_eq listed, ?_⟩, fun opened => ?_⟩
    · rw [alike.shelf]
      exact isOf.reflects alike.sharing.published extended
    · exact alike.cursors (cursors ▸ opened)
  have aboutNow : (common.execute command).1.about question = some number := by
    cases question with
    | cursor name moved => simpa only [SkipListSession.about, cursors] using about
    | _ => exact about
  exact (mirrors.read reads aboutNow).1.trans (alike.mirrors.read reads about).1.symm

/-- Runs of both sessions are answered alike. -/
theorem run (alike : Alike own common number nodes copies) (shared : common.shared = true)
    (commands : List SkipListCommand)
    (steps : ∀ name moved, .cursor name moved ∈ commands → moved.IsStep = true)
    (room : (common.run commands).sharedNodes < UInt32.size - 1)
    (drawn : ∀ more, own.heights ((copies number).nodes.size + more)
      = (common.draws number commands).getD more 1) :
    common.answersAbout number commands = common.answersAlone number own commands ∧
      ∃ last nodesLast copiesLast, Alike last (common.run commands) number nodesLast copiesLast := by
  induction commands generalizing common own nodes copies with
  | nil => exact ⟨rfl, own, nodes, copies, alike⟩
  | cons command rest ih =>
    have grows := alike.sharing.sharedNodes_run shared (command :: rest)
    have size := alike.sharing.sharedNodes_eq shared
    have sharedNow := (common.carries command).extended.shared.trans shared
    have stepsNow : ∀ name moved, .cursor name moved ∈ rest → moved.IsStep = true :=
      fun name moved member => steps name moved (List.mem_cons_of_mem _ member)
    simp only [draws] at drawn
    simp only [answersAbout, answersAlone]
    by_cases about : common.about command = some number
    · have drawnNow : common.linked number command ≠ [] →
          own.heights (copies number).nodes.size = common.heights nodes.size := by
        intro anything
        obtain ⟨handle, more, same⟩ := List.exists_cons_of_ne_nil anything
        simpa [same, size] using drawn 0
      obtain ⟨answer, nodesNow, copiesNow, alikeNow, count⟩ := alike.execute (by omega) about
        (fun name moved same => steps name moved (same ▸ List.mem_cons_self)) drawnNow
      have heights := (own.carries command).extended.heights
      obtain ⟨same, last⟩ := ih alikeNow sharedNow stepsNow room fun more => by
        rw [heights, count, Nat.add_assoc, drawn, List.getD_append_right _ _ _ _ (by simp),
          List.length_map, Nat.add_sub_cancel_left]
      rw [if_pos about, if_pos about, answer, same]
      exact ⟨rfl, last⟩
    · obtain ⟨nodesNow, copiesNow, alikeNow, kept⟩ := alike.elsewhere about
      obtain ⟨same, last⟩ := ih alikeNow sharedNow stepsNow room fun more => by
        rw [kept]
        simpa only [linked_eq_nil_of_about about, List.map_nil, List.nil_append] using drawn more
      rw [if_neg about, if_neg about, same]
      exact ⟨rfl, last⟩

end Alike

theorem Fresh.alike {order : KeyOrder} (new : session.Fresh order) (one : session.stores.length = 1)
    (inside : number < session.lists.length) (heights : Heights) :
    ∃ copies, Alike (session.alone heights) session number .empty copies ∧
      (copies number).nodes = .empty := by
  obtain ⟨copies, sharing, copied⟩ := new.sharing one
  obtain ⟨⟨list, store⟩, listed⟩ : ∃ listed, session.lists[number]? = some listed :=
    ⟨_, List.getElem?_eq_getElem inside⟩
  have same := copied listed
  have found : (session.alone heights).find? number = some (list, number, .empty) := by
    refine find?_eq_some_iff.mpr ⟨?_, ?_⟩
    · simp [alone, List.getElem?_mapIdx, listed]
    · simp [alone, listed, -List.map_const']
  refine ⟨copies, ⟨sharing, inside, rfl, ⟨number, by rw [found, same]⟩, fun opened => ?_⟩, by rw [same]⟩
  simp [new.cursors, Named.find?] at opened

/-- Lists that share a node store and an arena do not notice each other, whatever the order of entries
and however high the towers. Each answer about a list is the one it would give on a store of its own,
with towers of the heights drawn for it and only its own steps carried out; what is linked into another
list moves no cursor and changes no reading of this one; and the store has as many nodes as handles
were linked in. Cursors are moved one step at a time, and the store is not used up. -/
theorem run_lists_independent {order : KeyOrder} (new : session.Fresh order)
    (shared : session.shared = true) (one : session.stores.length = 1)
    (commands : List SkipListCommand)
    (steps : ∀ name moved, .cursor name moved ∈ commands → moved.IsStep = true)
    (room : (session.run commands).sharedNodes < UInt32.size - 1)
    (inside : number < session.lists.length) :
    session.answersAbout number commands = session.answersAlone number
        (session.alone fun drawn => (session.draws number commands).getD drawn 1) commands ∧
      (∀ command other, command.into? = some other → other ≠ number →
        ((session.run commands).execute command).1.cursors = (session.run commands).cursors ∧
        ∀ question, question.IsReading = true → (session.run commands).about question = some number →
          (((session.run commands).execute command).1.execute question).2
            = ((session.run commands).execute question).2) ∧
      (session.run commands).sharedNodes = ∑ listed ∈ Finset.range session.lists.length,
        (session.links listed commands).length := by
  obtain ⟨copies, alike, empty⟩ :=
    new.alike one inside fun drawn => (session.draws number commands).getD drawn 1
  have drawn : ∀ more, (session.draws number commands).getD ((copies number).nodes.size + more) 1
      = (session.draws number commands).getD more 1 := by
    intro more
    rw [empty, show (ChunkStore.empty : NodeStore).size = 0 from rfl, Nat.zero_add]
  obtain ⟨same, last, nodes, copiesLast, alikeLast⟩ := alike.run shared commands steps room drawn
  refine ⟨same, fun command other into apart => ⟨execute_cursors _ into, ?_⟩, ?_⟩
  · exact fun question reads about => alikeLast.unmoved into apart reads about
  · have none : session.sharedNodes = 0 := alike.sharing.sharedNodes_eq shared
    rw [alike.sharing.sharedNodes_run shared, none, Nat.zero_add]

/-- Two lists share a store and the handle of an entry, one entry is refused when it comes again, and
a cursor stays open over the first list. -/
theorem run_lists_independent_shared_handle :
    let empty : SkipList := { head := [none, none, none] }
    let session : SkipListSession := {
      shelf := { order := .versioned, arena := { id := 0 } }
      heights := fun drawn => [2, 1, 3, 2].getD drawn 1
      shared := true
      stores := [.empty]
      lists := [(empty, 0), (empty, 0)] }
    let commands : List SkipListCommand := [.add 0 ⟨[98], 1, .put, []⟩, .link 1 ⟨0⟩,
      .openCursor "a" 0, .cursor "a" (.move .first), .splice 1 ⟨[97], 1, .put, []⟩,
      .add 0 ⟨[98], 1, .put, [7]⟩, .splice 0 ⟨[99], 1, .put, []⟩, .cursor "a" (.move .next),
      .handles 1]
    session.answersAbout 0 commands = session.answersAlone 0
        (session.alone fun drawn => [2, 2].getD drawn 1) commands ∧
      (((session.run commands).execute (.link 1 ⟨3⟩)).1.execute (.handles 0)).2
        = ((session.run commands).execute (.handles 0)).2 ∧
      (session.run commands).sharedNodes = 4 := by
  intro empty session commands
  have started : start .versioned session.heights 3 4 2 true = .ok session := rfl
  obtain ⟨new, _⟩ := fresh_start started
  have steps : ∀ name moved, .cursor name moved ∈ commands → moved.IsStep = true := by
    have all : ∀ command ∈ commands, command.IsReading = true ∨ command.into?.isSome = true ∨
        command = .openCursor "a" 0 := by decide +kernel
    intro name moved member
    rcases all _ member with reads | into | opened
    · exact reads
    · cases into
    · cases opened
  have drawn : session.draws 0 commands = [2, 2] := by decide +kernel
  have inside : 0 < session.lists.length := by decide
  obtain ⟨same, apart, count⟩ :=
    run_lists_independent new rfl rfl commands steps (by decide +kernel) inside
  rw [drawn] at same
  refine ⟨same, (apart (.link 1 ⟨3⟩) 1 rfl (by decide)).2 (.handles 0) rfl rfl, count.trans ?_⟩
  decide +kernel

end SkipListSession

end WriteBuffer
