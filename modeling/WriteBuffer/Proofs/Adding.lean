import Mathlib
import WriteBuffer.Proofs.Extending
import WriteBuffer.Proofs.VersionedReads
import WriteBuffer.Proofs.WholeInserts

/-!
Records added one after the other. What a table of any kind takes in that way are the entries of the
records (`MemTable.addAll_run`), and it needs an index of its arena for each (`Sound.addAll_room`). An
ordered table takes in all records that its arena has room for, as long as the order tells their
entries apart (`MemTable.Holds.addAll_accepted`).
-/
namespace WriteBuffer

/-- A record for which there is a buffer, and that can be written into it. -/
structure Record.Storable (record : Record) : Prop where
  size : requireAllocatable record.size 1 = .ok ()
  encoded : ∃ entry, record.encode = .ok entry

def entriesOf (records : List Record) : List Bytes := records.filterMap (·.encode.toOption)

theorem encode_eq_ok_iff {record : Record} {entry : Bytes} :
    record.encode.toOption = some entry ↔ record.encode = .ok entry := by
  cases record.encode <;> simp [Except.toOption]

theorem mem_entriesOf {records : List Record} {entry : Bytes} :
    entry ∈ entriesOf records ↔ ∃ record ∈ records, record.encode = .ok entry := by
  simp only [entriesOf, List.mem_filterMap, encode_eq_ok_iff]

theorem entriesOf_cons {record : Record} {entry : Bytes} (encoded : record.encode = .ok entry)
    (records : List Record) : entriesOf (record :: records) = entry :: entriesOf records := by
  simp [entriesOf, encoded, Except.toOption]

theorem entriesOf_append (earlier later : List Record) :
    entriesOf (earlier ++ later) = entriesOf earlier ++ entriesOf later :=
  List.filterMap_append

namespace MemTable

variable {order : KeyOrder} {placing : Option (Placement × Nat)} {taken : List Bytes}
  {keys : Bytes → Prop} {table now : MemTable} {record : Record} {records : List Record}
  {draft : Draft} {handle : Handle} {entry userKey : Bytes}

/-- Adds records one after the other, up to the first that is refused. -/
def addAll (table : MemTable) : List Record → Outcome MemTable Unit
  | [] => (table, .ok ())
  | record :: rest =>
    match table.add record with
    | (table, .error failure) => (table, .error failure)
    | (table, .ok _) => addAll table rest

/-- Adding a record inserts its entry in a draft that was handed out for it. -/
theorem add_ok_iff : table.add record = (now, .ok handle) ↔ ∃ draft entry,
    (table.arena.allocate record.size).2 = .ok draft ∧ record.encode = .ok entry ∧
      (table.allocate record.size).1.insert { draft with bytes := entry } = (now, .ok ()) ∧
      draft.handle = handle := by
  cases outcome : table.allocate record.size with
  | mk after allocated =>
    have same : (table.arena.allocate record.size).2 = allocated := congrArg Prod.snd outcome
    cases allocated with
    | error failure => simp [add, outcome, same]
    | ok draft =>
      obtain ⟨_, _, rfl⟩ := Arena.allocate_ok_iff.mp same
      simp only [add, outcome, same, Record.encode, Except.ok.injEq]
      cases record.write (List.replicate record.size 0) with
      | mk bytes written =>
        cases written with
        | error failure => simp [Except.map]
        | ok done =>
          cases inserted : after.insert ⟨table.arena.id, ⟨.ofNat table.arena.entries.reserved⟩, bytes⟩ with
          | mk left answer => cases answer <;> simp [Except.map, inserted]

theorem add_run (done : table.add record = (now, .ok handle)) :
    ∃ operations, table.run operations = now ∧ accepted table operations = entriesOf [record] := by
  obtain ⟨draft, entry, _, encoded, inserted, _⟩ := add_ok_iff.mp done
  refine ⟨[.allocate record.size, .insert { draft with bytes := entry }],
    congrArg Prod.fst inserted, ?_⟩
  have answer := congrArg Prod.snd inserted
  simp only [accepted, added, perform, answer, gained, entriesOf_cons encoded, List.nil_append,
    List.append_nil]
  rfl

/-- What a table takes in when it adds records are their entries. -/
theorem addAll_run (done : table.addAll records = (now, .ok ())) :
    ∃ operations, table.run operations = now ∧ accepted table operations = entriesOf records := by
  induction records generalizing table with
  | nil => exact ⟨[], congrArg Prod.fst done, rfl⟩
  | cons record rest ih =>
    simp only [addAll] at done
    split at done
    · cases done
    · next next _ added =>
      obtain ⟨first, ran, one⟩ := add_run added
      obtain ⟨later, last, others⟩ := ih done
      refine ⟨first ++ later, by rw [run_append, ran, last], ?_⟩
      rw [accepted_append, ran, one, others]
      exact (entriesOf_append [record] rest).symm

theorem Sound.add_room (sound : table.Sound) (done : table.add record = (now, .ok handle)) :
    now.Sound ∧ record.Storable ∧ table.arena.entries.reserved < UInt32.size - 1 ∧
      now.arena.entries.reserved = table.arena.entries.reserved + 1 := by
  obtain ⟨draft, entry, handedOut, encoded, inserted, _⟩ := add_ok_iff.mp done
  obtain ⟨few, size, _⟩ := Arena.allocate_ok_iff.mp handedOut
  have issued : Draft.Issued { draft with bytes := entry } := ⟨_, _, draft, handedOut, rfl, rfl⟩
  have allocated : (table.allocate record.size).1.Sound :=
    sound.perform (.allocate record.size) fun _ other => nomatch other
  have after := allocated.perform (.insert { draft with bytes := entry }) fun _ same =>
    Operation.insert.inj same ▸ issued
  rw [MemTable.perform, inserted] at after
  have taking := insert_taking (table.allocate record.size).1 { draft with bytes := entry }
  rw [inserted] at taking
  refine ⟨after, ⟨size, entry, encoded⟩, few, (Arena.publish_reserved taking.stored).trans ?_⟩
  cases table <;> rfl

/-- Records that a table takes in can be stored, and need as many indices of the arena. -/
theorem Sound.addAll_room (sound : table.Sound) (done : table.addAll records = (now, .ok ())) :
    (∀ record ∈ records, record.Storable) ∧ (records ≠ [] →
      table.arena.entries.reserved + records.length < UInt32.size) := by
  induction records generalizing table with
  | nil => simp
  | cons record rest ih =>
    simp only [addAll] at done
    split at done
    · cases done
    · next next handle added =>
      obtain ⟨after, storable, few, more⟩ := sound.add_room added
      obtain ⟨others, room⟩ := ih after done
      refine ⟨List.forall_mem_cons.mpr ⟨storable, others⟩, fun _ => ?_⟩
      by_cases last : rest = []
      · subst last
        exact Nat.add_lt_of_lt_sub few
      · have := room last
        rw [List.length_cons]
        omega

/-- An ordered table has a place for every entry with a bucket that ties with none of its own. -/
theorem Holds.not_refuses (holds : table.Holds order placing taken) (total : order.TotalOn keys)
    (readable : ∀ other ∈ taken, HasKey keys other) (ready : table.Ready)
    (hasKey : HasKey keys entry) (user : entryUserKey entry = .ok userKey)
    (places : Places placing userKey) (apart : ∀ other ∈ taken, ¬ order.Ties other entry)
    (failure : Failure) : ¬ table.Refuses entry failure := by
  obtain ⟨rfl, rfl, index⟩ := holds
  cases table with
  | cuckoo table => exact index.elim
  | vector table =>
    intro sorted
    cases sorted.symm.trans ready.2
  | skipList table =>
    obtain ⟨rows, entries, arranges⟩ := index
    obtain ⟨splice, found⟩ := arranges.linked.spliceFor_ok arranges.tallied total arranges.reads
      (fun other member => readable other (arranges.all.mem_iff.mp member)) arranges.sorted hasKey
      fun other member => apart other (arranges.all.mem_iff.mp member)
    intro refused
    cases found.symm.trans refused
  | hashedSkipLists table =>
    obtain ⟨bucket, place⟩ := places.bucketOf_ok
    obtain ⟨rows, held, arranges⟩ := index
    obtain ⟨list, size, offered⟩ := ready.2.offers user place
    obtain ⟨linked, _⟩ := HashedSkipTable.offer_ok arranges offered
    obtain ⟨splice, found⟩ := linked.spliceFor_ok arranges.2 total (arranges.1.reads bucket)
      (fun other member => readable other (arranges.1.mem_iff.mpr ⟨bucket, member⟩))
      (arranges.1.sorted bucket) hasKey
      fun other member => apart other (arranges.1.mem_iff.mpr ⟨bucket, member⟩)
    rintro (refused | ⟨_, _, _, again, refused⟩)
    · cases offered.symm.trans refused
    · obtain ⟨rfl, rfl, rfl⟩ : _ ∧ _ ∧ _ := by simpa using offered.symm.trans again
      cases found.symm.trans refused
  | hashedChains table =>
    obtain ⟨bucket, place⟩ := places.bucketOf_ok
    obtain ⟨rows, held, arranged, tallied⟩ := index
    have chain : table.index.chainOf bucket = .ok (rows bucket) :=
      (arranged.linked bucket).chain_eq tallied
    have bucketed : table.index.bucketOf userKey = .ok bucket := place
    have total : table.shelf.order.TotalOn keys := total
    obtain ⟨gap, found⟩ := ChainStore.gapIn_ok total (arranged.reads bucket)
      (fun other member => readable other (arranged.mem_iff.mpr ⟨bucket, member⟩))
      (arranged.sorted bucket) hasKey
      fun other member => apart other (arranged.mem_iff.mpr ⟨bucket, member⟩)
    intro refused
    simp only [Refuses, HashedChainTable.placeFor, user, bucketed, chain, found, bind,
      Except.bind] at refused
    cases refused

/-- An ordered table that takes in whatever has a place in it. -/
structure Accepting (table : MemTable) : Prop where
  sound : table.Sound
  ready : table.Ready
  packed : table.arena.entries.Packed

theorem Ready.opened (ready : table.Ready) : table.isReadOnly = false := by
  cases table with
  | cuckoo table => exact ready.elim
  | skipList table | hashedChains table => exact congrArg Gate.readOnly ready
  | vector table | hashedSkipLists table => exact congrArg Gate.readOnly ready.1

/-- A table with lists by bucket can make them. -/
def MakesLists : MemTable → Prop
  | hashedSkipLists table => HashedSkipTable.MakesLists table
  | skipList _ | vector _ | hashedChains _ | cuckoo _ => True

/-- A table that was just made on a new arena takes in whatever has a place in it. -/
theorem Fresh.accepting (fresh : Fresh order table) (lists : table.MakesLists)
    (new : table.arena.entries = .empty) : table.Accepting := by
  refine ⟨(Made.ordered fresh).sound, ?_, new ▸ ChunkStore.packed_empty⟩
  cases fresh with
  | skipList heights ordered => rfl
  | vector ordered made =>
    obtain rfl := VectorTable.create_ok made
    exact ⟨rfl, rfl⟩
  | hashedSkipLists ordered made =>
    simp only [HashedSkipTable.create, bind_eq_ok, pure, Except.pure, Except.ok.injEq] at made
    obtain ⟨_, _, rfl⟩ := made
    exact ⟨rfl, lists⟩
  | hashedChains ordered made =>
    simp only [HashedChainTable.create, bind_eq_ok, pure, Except.pure, Except.ok.injEq] at made
    obtain ⟨_, _, rfl⟩ := made
    simp only [Ready]
    split <;> rfl

theorem Accepting.allocate (accepting : table.Accepting) (size : Nat) :
    (table.allocate size).1.Sound ∧ (table.allocate size).1.Ready := by
  refine ⟨accepting.sound.perform (.allocate size) fun _ other => (nomatch other), ?_⟩
  have ready := accepting.ready
  cases table <;> exact ready

/-- A table takes in a record whose entry has a bucket and ties with none of its own. -/
theorem Holds.add_accepted (holds : table.Holds order placing taken) (total : order.TotalOn keys)
    (accepting : table.Accepting) (few : table.arena.entries.reserved < UInt32.size - 1)
    (size : requireAllocatable record.size 1 = .ok ()) (encoded : record.encode = .ok entry)
    (readable : ∀ other ∈ taken ++ [entry], HasKey keys other)
    (untied : order.Untied (taken ++ [entry])) (user : entryUserKey entry = .ok userKey)
    (places : Places placing userKey) :
    ∃ now handle, table.add record = (now, .ok handle) ∧
      now.Holds order placing (taken ++ [entry]) ∧ now.Accepting ∧
      now.arena.entries.reserved = table.arena.entries.reserved + 1 := by
  have known : ∀ other ∈ taken, HasKey keys other := fun other member =>
    readable other (List.mem_append_left _ member)
  have hasKey : HasKey keys entry := readable entry (by simp)
  have apart : ∀ other ∈ taken, ¬ order.Ties other entry := fun other member =>
    (List.pairwise_append.mp untied).2.2 other member entry (List.mem_singleton_self entry)
  obtain ⟨blank, handedOut⟩ : ∃ blank, (table.arena.allocate record.size).2 = .ok blank :=
    ⟨_, Arena.allocate_ok_iff.mpr ⟨few, size, rfl⟩⟩
  let draft : Draft := { blank with bytes := entry }
  have issued : draft.Issued := ⟨_, _, blank, handedOut, rfl, rfl⟩
  have arena : (table.allocate record.size).1.arena = (table.arena.allocate record.size).1 := by
    cases table <;> rfl
  obtain ⟨filled, stored, packed, more⟩ :=
    Arena.publish_allocated accepting.packed handedOut entry
  rw [← arena] at stored
  obtain ⟨sound, ready⟩ := accepting.allocate record.size
  have waiting := holds.allocate record.size
  rcases sound.insert_cases issued.ne_nowhere with
    ⟨_, failure, _, _, closed | refused | unpublished⟩ | ⟨now, done, soundNow, readyNow⟩
  · cases closed.symm.trans ready.opened
  · exact absurd refused (waiting.not_refuses total known ready hasKey user places apart failure)
  · cases stored.symm.trans unpublished
  · have taking := insert_taking (table.allocate record.size).1 draft
    rw [done] at taking
    obtain rfl := Except.ok.inj (stored.symm.trans taking.stored)
    have gainsKey : ∀ other ∈ gained draft ((table.allocate record.size).1.insert draft).2,
        HasKey keys other := by simpa [done, gained] using hasKey
    have after := waiting.insert total known gainsKey
    rw [done] at after
    exact ⟨now, blank.handle, add_ok_iff.mpr ⟨blank, entry, handedOut, encoded, done, rfl⟩, after,
      ⟨soundNow, readyNow ready, packed⟩, more⟩

/-- A table takes in records one after the other, if there is room for them in its arena, their
entries have buckets and the order tells them apart, also from those that the table has. -/
theorem Holds.addAll_accepted (holds : table.Holds order placing taken) (total : order.TotalOn keys)
    (accepting : table.Accepting) (room : records ≠ [] →
      table.arena.entries.reserved + records.length < UInt32.size)
    (storable : ∀ record ∈ records, record.Storable)
    (readable : ∀ other ∈ taken ++ entriesOf records, HasKey keys other)
    (untied : order.Untied (taken ++ entriesOf records))
    (places : ∀ entry ∈ entriesOf records, ∃ userKey, entryUserKey entry = .ok userKey ∧
      Places placing userKey) :
    ∃ now, table.addAll records = (now, .ok ()) ∧
      now.Holds order placing (taken ++ entriesOf records) := by
  induction records generalizing table taken with
  | nil => exact ⟨table, rfl, by simpa [entriesOf] using holds⟩
  | cons record rest ih =>
    obtain ⟨⟨size, entry, encoded⟩, others⟩ := List.forall_mem_cons.mp storable
    have fits := room (List.cons_ne_nil record rest)
    rw [List.length_cons] at fits
    have parts : taken ++ entriesOf (record :: rest) = taken ++ [entry] ++ entriesOf rest := by
      rw [entriesOf_cons encoded, List.append_assoc, List.singleton_append]
    rw [parts] at readable untied ⊢
    rw [entriesOf_cons encoded] at places
    obtain ⟨⟨userKey, user, place⟩, placesRest⟩ := List.forall_mem_cons.mp places
    obtain ⟨next, handle, done, after, acceptingNow, more⟩ :=
      holds.add_accepted total accepting (by simp only [UInt32.size] at fits ⊢; omega) size encoded
        (fun other member => readable other (List.mem_append_left _ member))
        (untied.sublist (List.sublist_append_left ..)) user place
    obtain ⟨now, all, holdsAll⟩ := ih after acceptingNow (fun _ => by omega) others readable untied
      placesRest
    exact ⟨now, by simp only [addAll, done, all], holdsAll⟩

end MemTable

end WriteBuffer
