import Mathlib
import WriteBuffer.Proofs.WriteOnce
import WriteBuffer.Session.Arenas

/-!
Drafts of several arenas. A session holds drafts whose handles were handed out, no two drafts of one
arena under the same handle, and none under a handle that names an entry
(`ArenaSession.Accounts`); every step keeps it so (`ArenaSession.Accounts.execute`). Hence a draft can
always be published in its own arena, and after any steps an arena shows under each handle what the draft
with that handle held when it was published there (`ArenaSession.run_publishes`).
-/
namespace WriteBuffer

namespace Arena

variable {arena : Arena} {id asked : Nat} {writes : List (UInt32 × Bytes)} {draft : Draft}

/-- What an arena counts and has published, once so many drafts were asked for. -/
structure Tracks (arena : Arena) (id asked : Nat) (writes : List (UInt32 × Bytes)) : Prop where
  id : arena.id = id
  entries : arena.entries.Tracks asked writes
  bytes : arena.publishedBytes = (writes.map (·.2.length)).sum

theorem tracks_new (id : Nat) : Tracks { id } id 0 [] := ⟨rfl, ChunkStore.tracks_empty, rfl⟩

/-- Asking for a draft takes up its index, whether the draft can be had or not. -/
theorem Tracks.allocate (tracks : arena.Tracks id asked writes) (length : Nat) :
    (arena.allocate length).1.Tracks id (asked + 1) writes :=
  ⟨tracks.id, tracks.entries.reserve, tracks.bytes⟩

theorem Tracks.allocate_eq (tracks : arena.Tracks id asked writes) (length : Nat) :
    (arena.allocate length).2 = if asked < UInt32.size - 1 then
        if length ≤ allocationLimit then .ok ⟨id, ⟨.ofNat asked⟩, List.replicate length 0⟩
        else .error .overflow
      else .error .storeFull := by
  simp only [Arena.allocate, ChunkStore.reserve, tracks.entries.reserved, tracks.id]
  by_cases room : asked < UInt32.size - 1
  · rw [if_pos room, if_pos room]
    by_cases small : length ≤ allocationLimit
    · simp [zeroedBuffer, requireAllocatable, small, bind, Except.bind, pure, Except.pure]
    · simp [zeroedBuffer, requireAllocatable, small, bind, Except.bind]
  · rw [if_neg room, if_neg room]
    rfl

/-- A draft of another arena is refused before anything else is looked at. -/
theorem Tracks.publish_foreign (tracks : arena.Tracks id asked writes) (foreign : draft.arena ≠ id) :
    arena.publish draft = .error .foreignBuffer := by
  rw [publish, if_pos (tracks.id ▸ foreign)]

theorem Tracks.publish_own (tracks : arena.Tracks id asked writes) (own : draft.arena = id)
    (fresh : draft.handle.index ∉ writes.map (·.1)) :
    ∃ new, arena.publish draft = .ok new ∧
      new.Tracks id asked (writes ++ [(draft.handle.index, draft.bytes)]) := by
  refine ⟨{ arena with
    entries := { arena.entries.setSlot draft.handle.index draft.bytes with
      published := arena.entries.published + 1 }
    publishedBytes := arena.publishedBytes + draft.bytes.length }, ?_, tracks.id, ?_, ?_⟩
  · rw [publish, if_neg (by rw [own, tracks.id]; exact fun differs => differs rfl),
      ChunkStore.publish_of_free (tracks.entries.free fresh)]
  · exact tracks.entries.fill fresh
  · rw [tracks.bytes, List.map_append, List.sum_append, List.map_singleton, List.sum_singleton]

theorem Tracks.get_eq_ok_iff (tracks : arena.Tracks id asked writes) (handle : Handle) (bytes : Bytes) :
    arena.get handle = .ok bytes ↔ (handle.index, bytes) ∈ writes := by
  rw [Arena.get_eq_ok_iff, tracks.entries.slots]

theorem Tracks.get_eq_error_iff (tracks : arena.Tracks id asked writes) (handle : Handle) :
    arena.get handle = .error (.unpublishedHandle handle.index)
      ↔ handle.index ∉ writes.map (·.1) := by
  rw [← tracks.entries.isSome_iff, get]
  cases arena.entries.get? handle.index <;> simp

theorem Tracks.memory_eq (tracks : arena.Tracks id asked writes) :
    arena.memory = (writes.map (·.2.length)).sum + 16 * writes.length
      + 24 * ∑ chunk ∈ (writes.map fun write => (locate write.1).1).toFinset, 64 * 2 ^ chunk := by
  rw [memory, tracks.bytes, tracks.entries.allocatedSlots_eq, size, ChunkStore.size,
    tracks.entries.published]

end Arena

/-- Whether a step asks an arena for a draft. -/
def ArenaCommand.asks (number : Nat) : ArenaCommand → Bool
  | allocate arena .. => arena = number
  | _ => false

namespace ArenaSession

def run (session : ArenaSession) (commands : List ArenaCommand) : ArenaSession :=
  commands.foldl (fun session command => (session.execute command).1) session

/-- What a step publishes in an arena: the bytes that a draft holds then, under the index of its
handle. -/
def published (session : ArenaSession) (number : Nat) : ArenaCommand → List (UInt32 × Bytes)
  | .publish arena name =>
    match session.drafts.find? name, (session.execute (.publish arena name)).2 with
    | some draft, .ok _ => if arena = number then [(draft.handle.index, draft.bytes)] else []
    | _, _ => []
  | _ => []

/-- What is published in an arena during a run, in order. -/
def publishes (number : Nat) : ArenaSession → List ArenaCommand → List (UInt32 × Bytes)
  | _, [] => []
  | session, command :: rest =>
    session.published number command ++ publishes number (session.execute command).1 rest

/-- What a session answers about one of its arenas, if so many drafts were asked for there before and
the given bytes were published under the given indices. -/
structure AnswersAs (session : ArenaSession) (number asked : Nat) (writes : List (UInt32 × Bytes)) :
    Prop where
  allocate_eq : ∀ size name, (session.execute (.allocate number size name)).2
    = if asked < UInt32.size - 1 then
        if size ≤ allocationLimit then .ok (.handle ⟨.ofNat asked⟩) else .error (.failed .overflow)
      else .error (.failed .storeFull)
  allocate_draft : ∀ size name, asked < UInt32.size - 1 → size ≤ allocationLimit →
    (session.execute (.allocate number size name)).1.drafts.find? name
      = some ⟨number, ⟨.ofNat asked⟩, List.replicate size 0⟩
  /-- The index that is handed out does not wrap around, and it can name an entry. -/
  nextHandle : asked < UInt32.size - 1 →
    (UInt32.ofNat asked).toNat = asked ∧ (⟨.ofNat asked⟩ : Handle) ≠ .nowhere
  get_eq_ok_iff : ∀ handle bytes,
    (session.execute (.get number handle)).2 = .ok (.bytes bytes) ↔ (handle.index, bytes) ∈ writes
  get_eq_error_iff : ∀ handle,
    (session.execute (.get number handle)).2 = .error (.failed (.unpublishedHandle handle.index))
      ↔ handle.index ∉ writes.map (·.1)
  get_stays : ∀ later handle bytes, (session.execute (.get number handle)).2 = .ok (.bytes bytes) →
    ((session.run later).execute (.get number handle)).2 = .ok (.bytes bytes)
  distinct : (writes.map (·.1)).Nodup
  size_eq : (session.execute (.size number)).2 = .ok (.count writes.length)
  memory_eq : (session.execute (.memory number)).2
    = .ok (.count ((writes.map (·.2.length)).sum + 16 * writes.length
      + 24 * ∑ chunk ∈ (writes.map fun write => (locate write.1).1).toFinset, 64 * 2 ^ chunk))

/-- What comes of publishing a draft that a session holds: its own arena takes it under a handle that
neither an entry nor another draft has, and every other arena refuses it and no arena changes. -/
structure Holds (session : ArenaSession) (count : Nat) (writes : Nat → List (UInt32 × Bytes))
    (name : String) (draft : Draft) : Prop where
  arena : draft.arena < count
  own : (session.execute (.publish draft.arena name)).2 = .ok (.handle draft.handle)
  foreign : ∀ other < count, other ≠ draft.arena →
    (session.execute (.publish other name)).2 = .error (.failed .foreignBuffer) ∧
      (session.execute (.publish other name)).1.arenas = session.arenas
  fresh : draft.handle.index ∉ (writes draft.arena).map (·.1)
  apart : ∀ other draft', session.drafts.find? other = some draft' →
    draft'.arena = draft.arena → draft'.handle = draft.handle → other = name

/-- The arenas of a session have handed out and published so much, and the drafts that it holds are
under different handles that were handed out and name no entry. -/
structure Accounts (session : ArenaSession) (count : Nat) (asked : Nat → Nat)
    (writes : Nat → List (UInt32 × Bytes)) : Prop where
  length : session.arenas.length = count
  arenas : ∀ {number : Nat} {arena : Arena}, session.arenas[number]? = some arena →
    arena.Tracks number (asked number) (writes number)
  claimed : ∀ {number index}, number < count → index ∈ (writes number).map (·.1) →
    index.toNat < asked number
  drafts : ∀ {name draft}, session.drafts.find? name = some draft → draft.arena < count ∧
    draft.handle.index.toNat < asked draft.arena ∧
    draft.handle.index ∉ (writes draft.arena).map (·.1)
  apart : ∀ {a b x y}, session.drafts.find? a = some x → session.drafts.find? b = some y →
    x.arena = y.arena → x.handle = y.handle → a = b

theorem accounts_start (count : Nat) : (start count).Accounts count (fun _ => 0) fun _ => [] where
  length := by simp [start]
  arenas := by
    intro number arena found
    simp only [start, List.getElem?_map, Option.map_eq_some_iff] at found
    obtain ⟨id, inRange, rfl⟩ := found
    obtain ⟨_, same⟩ := List.getElem?_eq_some_iff.mp inRange
    rw [List.getElem_range] at same
    exact same ▸ Arena.tracks_new number
  claimed := by simp
  drafts := nofun
  apart := nofun

namespace Accounts

variable {session : ArenaSession} {count : Nat} {asked : Nat → Nat}
  {writes : Nat → List (UInt32 × Bytes)} {number : Nat} {arena new : Arena} {name : String}
  {draft : Draft}

theorem lt_count (accounts : session.Accounts count asked writes)
    (found : session.arenas[number]? = some arena) : number < count :=
  accounts.length ▸ (List.getElem?_eq_some_iff.mp found).1

theorem exists_arena (accounts : session.Accounts count asked writes) (inside : number < count) :
    ∃ arena, session.arenas[number]? = some arena :=
  ⟨_, List.getElem?_eq_getElem (accounts.length.symm ▸ inside)⟩

/-- An account may say anything of arenas that are not there. -/
theorem congr (accounts : session.Accounts count asked writes) {asked' : Nat → Nat}
    {writes' : Nat → List (UInt32 × Bytes)} (same : ∀ number < count, asked' number = asked number)
    (sameWrites : ∀ number < count, writes' number = writes number) :
    session.Accounts count asked' writes' where
  length := accounts.length
  arenas := by
    intro number arena found
    have inside := accounts.lt_count found
    rw [same number inside, sameWrites number inside]
    exact accounts.arenas found
  claimed := by
    intro number index inside
    rw [same number inside, sameWrites number inside]
    exact accounts.claimed inside
  drafts := by
    intro name draft held
    obtain ⟨inside, claimed, fresh⟩ := accounts.drafts held
    rw [same _ inside, sameWrites _ inside]
    exact ⟨inside, claimed, fresh⟩
  apart := accounts.apart

/-- A session may forget a draft. -/
theorem drop (accounts : session.Accounts count asked writes) (name : String) :
    Accounts { session with drafts := session.drafts.drop name } count asked writes where
  length := accounts.length
  arenas := accounts.arenas
  claimed := accounts.claimed
  drafts := by
    intro other draft held
    rw [Named.find?_drop] at held
    split at held
    · cases held
    · exact accounts.drafts held
  apart := by
    intro a b x y heldA heldB
    rw [Named.find?_drop] at heldA heldB
    split at heldA
    · cases heldA
    · split at heldB
      · cases heldB
      · exact accounts.apart heldA heldB

/-- A session may hold a draft whose handle was handed out, names no entry and is that of no other
draft. -/
theorem put (accounts : session.Accounts count asked writes) (inside : draft.arena < count)
    (claimed : draft.handle.index.toNat < asked draft.arena)
    (fresh : draft.handle.index ∉ (writes draft.arena).map (·.1))
    (alone : ∀ {other x}, session.drafts.find? other = some x → x.arena = draft.arena →
      x.handle = draft.handle → other = name) :
    Accounts { session with drafts := session.drafts.put name draft } count asked writes where
  length := accounts.length
  arenas := accounts.arenas
  claimed := accounts.claimed
  drafts := by
    intro other x held
    rw [Named.find?_put] at held
    split at held
    · obtain rfl := Option.some.inj held
      exact ⟨inside, claimed, fresh⟩
    · exact accounts.drafts held
  apart := by
    intro a b x y heldA heldB sameArena sameHandle
    rw [Named.find?_put] at heldA heldB
    split at heldA
    · next nameA =>
      obtain rfl := Option.some.inj heldA
      split at heldB
      · next nameB => rw [nameA, nameB]
      · rw [nameA, alone heldB sameArena.symm sameHandle.symm]
    · split at heldB
      · next nameB =>
        obtain rfl := Option.some.inj heldB
        rw [nameB, alone heldA sameArena sameHandle]
      · exact accounts.apart heldA heldB sameArena sameHandle

/-- An arena is asked for one more draft. -/
theorem ask (accounts : session.Accounts count asked writes)
    (tracks : new.Tracks number (asked number + 1) (writes number)) :
    Accounts { session with arenas := session.arenas.set number new } count
      (fun other => asked other + if number = other then 1 else 0) writes where
  length := (List.length_set ..).trans accounts.length
  arenas := by
    intro other arena found
    rw [List.getElem?_set] at found
    split at found
    · next same =>
      subst same
      split at found
      · obtain rfl := Option.some.inj found
        simpa using tracks
      · cases found
    · next differs => simpa [differs] using accounts.arenas found
  claimed := by
    intro other index inside written
    have := accounts.claimed inside written
    omega
  drafts := by
    intro name draft held
    obtain ⟨inside, claimed, fresh⟩ := accounts.drafts held
    exact ⟨inside, Nat.lt_of_lt_of_le claimed (Nat.le_add_right ..), fresh⟩
  apart := accounts.apart

/-- A draft that is no longer held is published in its own arena. -/
theorem write (accounts : session.Accounts count asked writes)
    (tracks : new.Tracks draft.arena (asked draft.arena)
      (writes draft.arena ++ [(draft.handle.index, draft.bytes)]))
    (claimed : draft.handle.index.toNat < asked draft.arena)
    (gone : ∀ {other x}, session.drafts.find? other = some x → x.arena = draft.arena →
      x.handle ≠ draft.handle) :
    Accounts { session with arenas := session.arenas.set draft.arena new } count asked
      (fun other => writes other ++
        if draft.arena = other then [(draft.handle.index, draft.bytes)] else []) where
  length := (List.length_set ..).trans accounts.length
  arenas := by
    intro other arena found
    rw [List.getElem?_set] at found
    split at found
    · next same =>
      subst same
      split at found
      · obtain rfl := Option.some.inj found
        simpa using tracks
      · cases found
    · next differs => simpa [differs] using accounts.arenas found
  claimed := by
    intro other index inside written
    rw [List.map_append, List.mem_append] at written
    rcases written with before | now
    · exact accounts.claimed inside before
    · split at now
      · next same =>
        rw [← same, List.mem_singleton.mp now]
        exact claimed
      · cases now
  drafts := by
    intro name x held
    obtain ⟨inside, claimed, fresh⟩ := accounts.drafts held
    refine ⟨inside, claimed, ?_⟩
    rw [List.map_append, List.mem_append, not_or]
    refine ⟨fresh, fun now => ?_⟩
    split at now
    · next same =>
      exact gone held same.symm (congrArg Handle.mk (List.mem_singleton.mp now))
    · cases now
  apart := accounts.apart

/-- A draft that a session holds can be published in its own arena, which then has its bytes. -/
theorem publish_own (accounts : session.Accounts count asked writes)
    (held : session.drafts.find? name = some draft) :
    (session.execute (.publish draft.arena name)).2 = .ok (.handle draft.handle) ∧
      (session.execute (.publish draft.arena name)).1.Accounts count asked fun other =>
        writes other ++
          if draft.arena = other then [(draft.handle.index, draft.bytes)] else [] := by
  obtain ⟨inside, claimed, fresh⟩ := accounts.drafts held
  obtain ⟨arena, found⟩ := accounts.exists_arena inside
  obtain ⟨new, published, tracks⟩ := (accounts.arenas found).publish_own rfl fresh
  simp only [execute, held, found, published, true_and]
  refine (accounts.drop name).write tracks claimed ?_
  intro other x heldOther sameArena sameHandle
  rw [Named.find?_drop] at heldOther
  split at heldOther
  · cases heldOther
  · next differs => exact differs (accounts.apart heldOther held sameArena sameHandle)

theorem publish_foreign (accounts : session.Accounts count asked writes)
    (held : session.drafts.find? name = some draft) (inside : number < count)
    (foreign : number ≠ draft.arena) :
    session.execute (.publish number name)
      = ({ session with drafts := session.drafts.drop name }, .error (.failed .foreignBuffer)) := by
  obtain ⟨arena, found⟩ := accounts.exists_arena inside
  have elsewhere : draft.arena ≠ number := fun same => foreign same.symm
  have refused := (accounts.arenas found).publish_foreign elsewhere
  simp only [execute, held, found, refused]

/-- What a step that publishes does. -/
theorem publish (accounts : session.Accounts count asked writes) (number : Nat) (name : String) :
    (session.execute (.publish number name)).1.Accounts count asked fun other =>
      writes other ++ session.published other (.publish number name) := by
  cases held : session.drafts.find? name with
  | none =>
    simp only [execute, published, held, List.append_nil]
    exact accounts
  | some draft =>
    by_cases own : number = draft.arena
    · obtain ⟨answer, now⟩ := accounts.publish_own held
      rw [← own] at answer now
      simpa only [published, held, answer] using now
    · have nothing : ∀ other < count, session.published other (.publish number name) = [] := by
        intro other inside
        by_cases there : number < count
        · simp only [published, held, accounts.publish_foreign held there own]
        · have elsewhere : number ≠ other := fun same => there (same ▸ inside)
          simp only [published, held, elsewhere, if_false]
          split <;> rfl
      have refused : (session.execute (.publish number name)).1
          = { session with drafts := session.drafts.drop name } := by
        by_cases there : number < count
        · rw [accounts.publish_foreign held there own]
        · have missing : session.arenas[number]? = none :=
            List.getElem?_eq_none (accounts.length ▸ Nat.le_of_not_lt there)
          simp only [execute, held, missing]
      rw [refused]
      exact (accounts.drop name).congr (fun _ _ => rfl) fun other inside => by
        rw [nothing other inside, List.append_nil]

/-- What a step that asks for a draft does. -/
theorem allocate (accounts : session.Accounts count asked writes) (number size : Nat)
    (name : String) :
    (session.execute (.allocate number size name)).1.Accounts count
      (fun other => asked other + if number = other then 1 else 0) writes := by
  cases found : session.arenas[number]? with
  | none =>
    have outside : count ≤ number := accounts.length ▸ List.getElem?_eq_none_iff.mp found
    simp only [execute, found]
    exact accounts.congr (fun other inside => by rw [if_neg (by omega), Nat.add_zero])
      fun _ _ => rfl
  | some arena =>
    have inside := accounts.lt_count found
    have tracks := accounts.arenas found
    have now := accounts.ask (tracks.allocate size)
    simp only [execute, found]
    cases answer : (arena.allocate size).2 with
    | error failure => exact now
    | ok draft =>
      have result := tracks.allocate_eq size
      rw [answer] at result
      split at result
      · next room =>
        split at result
        · obtain rfl := Except.ok.inj result
          have index : (UInt32.ofNat (asked number)).toNat = asked number :=
            Nat.mod_eq_of_lt (Nat.lt_of_lt_of_le room (Nat.sub_le ..))
          refine now.put inside ?_ (fun written => ?_) fun held sameArena sameHandle => ?_
          · simp [index]
          · have claimed := accounts.claimed inside written
            exact absurd (index ▸ claimed) (Nat.lt_irrefl _)
          · obtain ⟨_, claimed, _⟩ := accounts.drafts held
            rw [sameHandle, sameArena] at claimed
            exact absurd (index ▸ claimed) (Nat.lt_irrefl _)
        · cases result
      · cases result

/-- What a step does. -/
theorem execute (accounts : session.Accounts count asked writes) (command : ArenaCommand) :
    (session.execute command).1.Accounts count
      (fun number => asked number + if command.asks number then 1 else 0)
      fun number => writes number ++ session.published number command := by
  cases command with
  | allocate number size name =>
    simpa [published, ArenaCommand.asks] using accounts.allocate number size name
  | publish number name => exact accounts.publish number name
  | fill name bytes =>
    simp only [published, ArenaCommand.asks, List.append_nil]
    cases held : session.drafts.find? name with
    | none =>
      simp only [ArenaSession.execute, held]
      exact accounts
    | some draft =>
      simp only [ArenaSession.execute, held, Draft.fill]
      by_cases fits : bytes.length = draft.bytes.length
      · simp only [fits, if_true]
        obtain ⟨inside, claimed, fresh⟩ := accounts.drafts held
        exact accounts.put inside claimed fresh fun other sameArena sameHandle =>
          accounts.apart other held sameArena sameHandle
      · simp only [fits, if_false]
        exact accounts
  | discard name =>
    simp only [published, ArenaCommand.asks, List.append_nil, ArenaSession.execute]
    cases session.drafts.find? name with
    | none => exact accounts
    | some draft => exact accounts.drop name
  | inspect name =>
    simp only [published, ArenaCommand.asks, List.append_nil, ArenaSession.execute]
    cases session.drafts.find? name <;> exact accounts
  | get number handle | size number | isEmpty number | memory number | describe number
    | compare a b =>
    simp only [published, ArenaCommand.asks, List.append_nil]
    exact accounts

theorem run (accounts : session.Accounts count asked writes) (commands : List ArenaCommand) :
    (session.run commands).Accounts count
      (fun number => asked number + commands.countP (·.asks number))
      fun number => writes number ++ session.publishes number commands := by
  induction commands generalizing session asked writes with
  | nil =>
    simp only [publishes, List.append_nil]
    exact accounts
  | cons command rest ih =>
    have later := ih (accounts.execute command)
    simp only [Nat.add_assoc] at later
    simp only [publishes, List.countP_cons, ← List.append_assoc, Nat.add_comm (rest.countP _)]
    exact later

/-- What a session answers about an arena that it accounts for. -/
theorem answersAs (accounts : session.Accounts count asked writes) (inside : number < count) :
    session.AnswersAs number (asked number) (writes number) := by
  obtain ⟨arena, found⟩ := accounts.exists_arena inside
  have tracks := accounts.arenas found
  have get_ok : ∀ {session : ArenaSession} {asked : Nat → Nat} {writes : Nat → List (UInt32 × Bytes)},
      session.Accounts count asked writes → ∀ handle bytes,
        (session.execute (.get number handle)).2 = .ok (.bytes bytes)
          ↔ (handle.index, bytes) ∈ writes number := by
    intro session asked writes accounts handle bytes
    obtain ⟨arena, found⟩ := accounts.exists_arena inside
    rw [← (accounts.arenas found).get_eq_ok_iff]
    simp only [ArenaSession.execute, ArenaSession.ask, found]
    cases arena.get handle <;> simp [StepError.ofFailure, Except.map]
  refine ⟨?_, ?_, ?_, get_ok accounts, ?_, ?_, tracks.entries.distinct, ?_, ?_⟩
  · intro size name
    have answer := tracks.allocate_eq size
    simp only [ArenaSession.execute, found]
    by_cases room : asked number < UInt32.size - 1
    · rw [if_pos room] at answer ⊢
      by_cases small : size ≤ allocationLimit
      · rw [if_pos small] at answer ⊢
        simp only [answer]
      · rw [if_neg small] at answer ⊢
        simp only [answer]
    · rw [if_neg room] at answer ⊢
      simp only [answer]
  · intro size name room small
    have answer := tracks.allocate_eq size
    rw [if_pos room, if_pos small] at answer
    simp only [ArenaSession.execute, found, answer, Named.find?_put, if_true]
  · intro room
    have index : (UInt32.ofNat (asked number)).toNat = asked number :=
      Nat.mod_eq_of_lt (Nat.lt_of_lt_of_le room (Nat.sub_le ..))
    refine ⟨index, fun last => ?_⟩
    have big := congrArg (fun handle => handle.index.toNat) last
    simp only [index, Handle.nowhere, UInt32.reduceToNat] at big
    simp only [big, UInt32.size] at room
    omega
  · intro handle
    rw [← tracks.get_eq_error_iff]
    simp only [ArenaSession.execute, ArenaSession.ask, found]
    cases arena.get handle <;> simp [StepError.ofFailure, Except.map]
  · intro later handle bytes before
    rw [get_ok accounts] at before
    rw [get_ok (accounts.run later)]
    exact List.mem_append_left _ before
  · simp only [ArenaSession.execute, ArenaSession.ask, found, StepError.ofFailure, Arena.size,
      ChunkStore.size, tracks.entries.published]
  · simp only [ArenaSession.execute, ArenaSession.ask, found, StepError.ofFailure, tracks.memory_eq]

/-- What comes of publishing a draft that is accounted for. -/
theorem holds (accounts : session.Accounts count asked writes)
    (held : session.drafts.find? name = some draft) : session.Holds count writes name draft := by
  obtain ⟨inside, _, fresh⟩ := accounts.drafts held
  refine ⟨inside, (accounts.publish_own held).1, ?_, fresh, ?_⟩
  · intro other there foreign
    rw [accounts.publish_foreign held there foreign]
    exact ⟨rfl, rfl⟩
  · intro other draft' heldOther sameArena sameHandle
    exact accounts.apart heldOther held sameArena sameHandle

end Accounts

/-- After any steps over any number of arenas, each arena hands out the handle after the last one that
was asked for there, and shows under each handle what was published under it, which stays; its counts
are those of what was published. Every draft that is still held can be published in its own arena, and
no other arena takes it or changes by refusing it. -/
theorem run_publishes (count : Nat) (commands : List ArenaCommand) :
    (∀ number < count, ((start count).run commands).AnswersAs number
      (commands.countP (·.asks number)) ((start count).publishes number commands)) ∧
    ∀ name draft, ((start count).run commands).drafts.find? name = some draft →
      ((start count).run commands).Holds count ((start count).publishes · commands) name draft := by
  have accounts := (accounts_start count).run commands
  simp only [Nat.zero_add, List.nil_append] at accounts
  exact ⟨fun number inside => accounts.answersAs inside, fun name draft held => accounts.holds held⟩

/-- Of two arenas that hand out the same handles, one takes a draft that the other one refused to
take, and shows it. -/
theorem run_publishes_second_draft :
    let commands : List ArenaCommand := [.allocate 0 2 "a", .allocate 0 1 "b", .allocate 1 1 "c",
      .fill "b" [7], .publish 0 "b", .publish 0 "c"]
    let session := (start 2).run commands
    (session.execute (.get 0 ⟨1⟩)).2 = .ok (.bytes [7]) ∧
      (session.execute (.get 1 ⟨1⟩)).2 = .error (.failed (.unpublishedHandle 1)) ∧
      (session.execute (.memory 0)).2 = .ok (.count (1 + 16 + 24 * 64)) ∧
      (session.execute (.allocate 0 5 "d")).2 = .ok (.handle ⟨2⟩) ∧
      (session.execute (.publish 1 "a")).2 = .error (.failed .foreignBuffer) ∧
      (session.execute (.publish 0 "a")).2 = .ok (.handle ⟨0⟩) := by
  intro commands session
  obtain ⟨answers, holds⟩ := run_publishes 2 commands
  have first := answers 0 (by decide)
  have second := answers 1 (by decide)
  have inFirst : (start 2).publishes 0 commands = [(1, [7])] := by decide +kernel
  have inSecond : (start 2).publishes 1 commands = [] := by decide +kernel
  have asked : commands.countP (·.asks 0) = 2 := by decide
  rw [inFirst, asked] at first
  rw [inSecond] at second
  have held : session.drafts.find? "a" = some ⟨0, ⟨0⟩, [0, 0]⟩ := by decide +kernel
  have ofFirst := holds "a" _ held
  refine ⟨(first.get_eq_ok_iff _ _).mpr (by decide), (second.get_eq_error_iff _).mpr (by decide), ?_, ?_,
    (ofFirst.foreign 1 (by decide) (by decide)).1, ofFirst.own⟩
  · rw [first.memory_eq]
    decide +kernel
  · rw [first.allocate_eq, if_pos (by decide), if_pos (by decide)]
    rfl

end ArenaSession

end WriteBuffer
