import Mathlib
import WriteBuffer.Proofs.Storage
import WriteBuffer.Table.Displacement

/-!
Moves along chains of slots. The path and the empty slot that a search for room finds make a chain
of distinct slots that begins where the new key may be (`findRoom_chain`). After the moves along such
a chain every slot holds what was in one other slot before, or in itself (`get?_displace`), and only
what was in the last slot of the chain is gone (`origin_surjective`).
-/
namespace WriteBuffer

/-- A target that can be reached over a path from one of some starts. The path has the nearest slot
first. -/
def Chain (moves : Nat → Nat → Prop) (starts : List Nat) : (path : List Nat) → (target : Nat) → Prop
  | [], target => target ∈ starts
  | source :: earlier, target => moves source target ∧ Chain moves starts earlier source

/-- Where the content of a slot was before the moves along a path to a target. The slot of the new
handle has no origin. -/
def origin : (path : List Nat) → (target slot : Nat) → Option Nat
  | [], target, slot => if slot = target then none else some slot
  | source :: earlier, target, slot =>
    if slot = target then some source else origin earlier source slot

section Origin

variable {path starts : List Nat} {target slot other source : Nat} {moves : Nat → Nat → Prop}

theorem origin_of_notMem (apart : slot ∉ target :: path) : origin path target slot = some slot := by
  induction path generalizing target with
  | nil => simpa [origin] using apart
  | cons source earlier ih =>
    rw [List.mem_cons, not_or] at apart
    rw [origin, if_neg apart.1, ih apart.2]

theorem origin_mem (found : origin path target slot = some source) :
    source = slot ∨ source ∈ path := by
  induction path generalizing target with
  | nil =>
    simp only [origin] at found
    split at found
    · cases found
    · exact .inl (Option.some.inj found).symm
  | cons first earlier ih =>
    simp only [origin] at found
    split at found
    · exact .inr (Option.some.inj found ▸ List.mem_cons_self)
    · exact (ih found).imp_right (List.mem_cons_of_mem _)

theorem origin_ne_target (distinct : (target :: path).Nodup) :
    origin path target slot ≠ some target := by
  intro found
  have absent := (List.nodup_cons.mp distinct).1
  rcases origin_mem found with same | onPath
  · cases path with
    | nil => simp [origin, same] at found
    | cons source earlier =>
      rw [← same, origin, if_pos rfl, Option.some.injEq] at found
      exact absent (found ▸ List.mem_cons_self)
  · exact absent onPath

theorem origin_injective (distinct : (target :: path).Nodup)
    (same : origin path target slot = origin path target other) : slot = other := by
  induction path generalizing target with
  | nil =>
    by_cases slotTarget : slot = target <;> by_cases otherTarget : other = target <;>
      simp_all [origin]
  | cons source earlier ih =>
    obtain ⟨_, distinct⟩ := List.nodup_cons.mp distinct
    by_cases slotTarget : slot = target <;> by_cases otherTarget : other = target <;>
      simp only [origin, slotTarget, otherTarget, if_true, if_false] at same
    · rw [slotTarget, otherTarget]
    · exact absurd same.symm (origin_ne_target distinct)
    · exact absurd same (origin_ne_target distinct)
    · exact ih distinct same

/-- What was not in the target is somewhere, and so is the new handle. -/
theorem origin_surjective (distinct : (target :: path).Nodup) :
    (∃ slot, origin path target slot = none) ∧
      ∀ other ≠ target, ∃ slot, origin path target slot = some other := by
  induction path generalizing target with
  | nil => exact ⟨⟨target, by simp [origin]⟩, fun other differs => ⟨other, by simp [origin, differs]⟩⟩
  | cons source earlier ih =>
    obtain ⟨absent, distinct⟩ := List.nodup_cons.mp distinct
    obtain ⟨⟨home, new⟩, kept⟩ := ih distinct
    have stays : origin earlier source target = some target := origin_of_notMem absent
    refine ⟨⟨home, ?_⟩, ?_⟩
    · have differs : home ≠ target := by
        rintro rfl
        rw [stays] at new
        cases new
      rw [origin, if_neg differs, new]
    · intro other differs
      by_cases same : other = source
      · exact ⟨target, by rw [origin, if_pos rfl, same]⟩
      · obtain ⟨slot, found⟩ := kept other same
        have moved : slot ≠ target := by
          rintro rfl
          rw [stays, Option.some.injEq] at found
          exact differs found.symm
        exact ⟨slot, by rw [origin, if_neg moved, found]⟩

theorem Chain.mono {further : Nat → Nat → Prop} (chain : Chain moves starts path target)
    (sub : ∀ source target, moves source target → further source target) :
    Chain further starts path target := by
  induction path generalizing target with
  | nil => exact chain
  | cons source earlier ih => exact ⟨sub _ _ chain.1, ih chain.2⟩

theorem Chain.leads (chain : Chain moves starts path target) (onPath : slot ∈ path) :
    ∃ next, moves slot next := by
  induction path generalizing target with
  | nil => cases onPath
  | cons source earlier ih =>
    rcases List.mem_cons.mp onPath with rfl | later
    · exact ⟨target, chain.1⟩
    · exact ih chain.2 later

theorem Chain.mem_starts (chain : Chain moves starts path target)
    (new : origin path target slot = none) : slot ∈ starts := by
  induction path generalizing target with
  | nil =>
    simp only [origin] at new
    split at new
    · next same => exact same ▸ chain
    · cases new
  | cons source earlier ih =>
    simp only [origin] at new
    split at new
    · cases new
    · exact ih chain.2 new

theorem Chain.moved (chain : Chain moves starts path target)
    (found : origin path target slot = some source) : source = slot ∨ moves source slot := by
  induction path generalizing target with
  | nil => exact (origin_mem found).imp_right (absurd · List.not_mem_nil)
  | cons first earlier ih =>
    simp only [origin] at found
    split at found
    · next same => exact .inr (Option.some.inj found ▸ same ▸ chain.1)
    · exact ih chain.2 found

end Origin

theorem Sparse.get?_store {α : Type} (slots : Sparse α) (index : Nat) (content : Option α)
    (other : Nat) :
    (slots.store index content).get? other = if other = index then content else slots.get? other := by
  cases content <;> simp [store]

/-- After stores along a path of distinct slots, each slot holds what its origin held. -/
theorem get?_applyStores {slots now : Sparse Handle} {handle : Handle} {path : List Nat}
    {target : Nat} (distinct : (target :: path).Nodup) (slot : Nat) :
    (applyStores now (displacementStores slots handle path target)).get? slot
      = match origin path target slot with
        | none => some handle
        | some source => if source = slot then now.get? slot else slots.get? source := by
  induction path generalizing now target with
  | nil =>
    simp only [displacementStores, applyStores, List.foldl_cons, List.foldl_nil, Sparse.store,
      Sparse.get?_put, origin]
    split <;> simp
  | cons source earlier ih =>
    obtain ⟨absent, distinct⟩ := List.nodup_cons.mp distinct
    rw [displacementStores, applyStores, List.foldl_cons, ← applyStores, ih distinct,
      Sparse.get?_store, origin]
    by_cases same : slot = target
    · have differs : source ≠ target := fun equal => absent (equal ▸ List.mem_cons_self)
      subst same
      simp [origin_of_notMem absent, differs]
    · simp only [same, if_false]

/-- After the first stores along a path of distinct slots, each slot holds what it would after moves
along the first part of the path only, but that the last slot of this part still holds its own. -/
theorem get?_applyStores_take {slots now : Sparse Handle} {handle : Handle} {path : List Nat}
    {target : Nat} (distinct : (target :: path).Nodup) {count : Nat} (within : count ≤ path.length)
    (slot : Nat) :
    (applyStores now ((displacementStores slots handle path target).take count)).get? slot
      = match origin (path.take count) target slot with
        | none => now.get? slot
        | some source => if source = slot then now.get? slot else slots.get? source := by
  induction count generalizing now path target with
  | zero =>
    simp only [List.take_zero, applyStores, List.foldl_nil, origin]
    by_cases same : slot = target <;> simp [same]
  | succ count ih =>
    cases path with
    | nil => simp at within
    | cons source earlier =>
      obtain ⟨absent, distinct⟩ := List.nodup_cons.mp distinct
      rw [displacementStores, List.take_succ_cons, List.take_succ_cons, applyStores, List.foldl_cons,
        ← applyStores, ih distinct (Nat.le_of_succ_le_succ within), Sparse.get?_store, origin]
      by_cases same : slot = target
      · subst same
        have differs : source ≠ slot := fun equal => absent (equal ▸ List.mem_cons_self)
        have apart : slot ∉ source :: earlier.take count := fun member =>
          absent (List.mem_cons.mpr ((List.mem_cons.mp member).imp_right List.mem_of_mem_take))
        simp [origin_of_notMem apart, differs]
      · simp only [same, if_false]

theorem size_applyStores (slots : Sparse Handle) (stores : List (Nat × Option Handle)) :
    (applyStores slots stores).size = slots.size := by
  induction stores generalizing slots with
  | nil => rfl
  | cons first rest ih =>
    obtain ⟨target, content⟩ := first
    rw [applyStores, List.foldl_cons, ← applyStores, ih]
    cases content <;> rfl

/-- After the moves along a path, each slot holds what its origin held. -/
theorem get?_displace {slots : Sparse Handle} {handle : Handle} {path : KickPath} {empty : Nat}
    (distinct : (empty :: path.slot :: path.earlier).Nodup) (slot : Nat) :
    (displace slots handle path empty).get? slot
      = match origin (path.slot :: path.earlier) empty slot with
        | none => some handle
        | some source => slots.get? source := by
  rw [displace, get?_applyStores distinct]
  split
  · rfl
  · split
    · next same => rw [same]
    · rfl

/-- Stores along a path, whatever its slots are, put nothing into a slot but the new handle and what
was in some slot before. -/
theorem mem_applyStores {slots now : Sparse Handle} {handle : Handle} (path : List Nat) (target : Nat)
    (kept : ∀ {slot found}, now.get? slot = some found →
      found = handle ∨ ∃ source, slots.get? source = some found) {slot : Nat} {found : Handle}
    (holds : (applyStores now (displacementStores slots handle path target)).get? slot = some found) :
    found = handle ∨ ∃ source, slots.get? source = some found := by
  induction path generalizing now target with
  | nil =>
    simp only [displacementStores, applyStores, List.foldl_cons, List.foldl_nil, Sparse.store,
      Sparse.get?_put] at holds
    split at holds
    · exact .inl (Option.some.inj holds).symm
    · exact kept holds
  | cons source earlier ih =>
    rw [displacementStores, applyStores, List.foldl_cons, ← applyStores] at holds
    refine ih source ?_ holds
    intro slot found holds
    cases content : slots.get? source with
    | none =>
      simp only [content, Sparse.store, Sparse.get?_erase] at holds
      split at holds
      · cases holds
      · exact kept holds
    | some moved =>
      simp only [content, Sparse.store, Sparse.get?_put] at holds
      split at holds
      · exact .inr ⟨source, content.trans holds⟩
      · exact kept holds

/-- A slot is among the choices of the occupant of another one. -/
def MayMove (choices : Nat → Except Failure (List Nat)) (source target : Nat) : Prop :=
  ∃ slots, choices source = .ok slots ∧ target ∈ slots

/-- The slots of a path are distinct and full, and it leads from one of some starts to the last of
them. -/
structure KickPath.Sound (isFull : Nat → Bool) (moves : Nat → Nat → Prop) (starts : List Nat)
    (path : KickPath) : Prop where
  chain : Chain moves starts path.earlier path.slot
  distinct : (path.slot :: path.earlier).Nodup
  full : ∀ slot ∈ path.slot :: path.earlier, isFull slot = true

/-- The paths of a frontier are sound and their slots visited. -/
def Frontier.Sound (isFull : Nat → Bool) (moves : Nat → Nat → Prop) (starts : List Nat)
    (frontier : Frontier) : Prop :=
  ∀ path ∈ frontier.paths, path.Sound isFull moves starts ∧
    ∀ slot ∈ path.slot :: path.earlier, slot ∈ frontier.visited

/-- What a part of the search may come to, when it began with some slots visited. -/
inductive Search.Sound (isFull : Nat → Bool) (moves : Nat → Nat → Prop) (starts visited : List Nat) :
    Search → Prop
  | found {path : KickPath} {empty : Nat} (sound : path.Sound isFull moves starts)
    (moved : moves path.slot empty) (free : isFull empty = false) :
    Sound isFull moves starts visited (.found path empty)
  | wider {frontier : Frontier} (sound : frontier.Sound isFull moves starts)
    (grown : ∀ slot ∈ visited, slot ∈ frontier.visited) :
    Sound isFull moves starts visited (.wider frontier)

section Search

variable {isFull : Nat → Bool} {moves : Nat → Nat → Prop} {starts visited : List Nat}
  {choices : Nat → Except Failure (List Nat)}

theorem Search.Sound.mono {before : List Nat} {search : Search}
    (sound : search.Sound isFull moves starts visited) (sub : ∀ slot ∈ before, slot ∈ visited) :
    search.Sound isFull moves starts before := by
  cases sound with
  | found sound moved free => exact .found sound moved free
  | wider sound grown => exact .wider sound fun slot member => grown slot (sub slot member)

/-- A path to a slot not yet visited is sound, and so are all paths when it is added. -/
theorem Frontier.Sound.extend {frontier : Frontier}
    (frontierSound : frontier.Sound isFull moves starts) {path : KickPath}
    (sound : path.Sound isFull moves starts)
    (within : ∀ slot ∈ path.slot :: path.earlier, slot ∈ frontier.visited) {next : Nat}
    (moved : moves path.slot next) (full : isFull next = true) (new : next ∉ frontier.visited) :
    Frontier.Sound isFull moves starts
      ⟨frontier.paths ++ [path.extend next], next :: frontier.visited⟩ := by
  intro other member
  rcases List.mem_append.mp member with old | added
  · obtain ⟨soundOther, inside⟩ := frontierSound other old
    exact ⟨soundOther, fun slot onPath => List.mem_cons_of_mem _ (inside slot onPath)⟩
  · obtain rfl := List.mem_singleton.mp added
    refine ⟨⟨⟨moved, sound.chain⟩, ?_, ?_⟩, ?_⟩
    · exact List.nodup_cons.mpr ⟨fun onPath => new (within next onPath), sound.distinct⟩
    · exact List.forall_mem_cons.mpr ⟨full, sound.full⟩
    · exact List.forall_mem_cons.mpr
        ⟨List.mem_cons_self, fun slot onPath => List.mem_cons_of_mem _ (within slot onPath)⟩

theorem Search.around_sound (deeper : Bool) {path : KickPath}
    (sound : path.Sound isFull moves starts) {slots : List Nat}
    (moved : ∀ slot ∈ slots, moves path.slot slot) {frontier : Frontier}
    (frontierSound : frontier.Sound isFull moves starts)
    (within : ∀ slot ∈ path.slot :: path.earlier, slot ∈ frontier.visited) :
    (around isFull deeper path slots frontier).Sound isFull moves starts frontier.visited := by
  induction slots generalizing frontier with
  | nil => exact .wider frontierSound fun _ member => member
  | cons slot rest ih =>
    obtain ⟨movesSlot, moved⟩ := List.forall_mem_cons.mp moved
    rw [around]
    split
    · exact ih moved frontierSound within
    · split
      · next full =>
        split
        · next fresh =>
          have longer := frontierSound.extend sound within movesSlot full fresh.2
          refine (ih moved longer ?_).mono fun _ member => List.mem_cons_of_mem _ member
          exact fun other onPath => List.mem_cons_of_mem _ (within other onPath)
        · exact ih moved frontierSound within
      · next free => exact .found sound movesSlot (by simpa using free)

theorem Search.level_sound {deeper : Bool} {paths : List KickPath} {frontier : Frontier}
    {search : Search}
    (sound : ∀ path ∈ paths, path.Sound isFull (MayMove choices) starts ∧
      ∀ slot ∈ path.slot :: path.earlier, slot ∈ frontier.visited)
    (frontierSound : frontier.Sound isFull (MayMove choices) starts)
    (searched : level isFull choices deeper paths frontier = .ok search) :
    search.Sound isFull (MayMove choices) starts frontier.visited := by
  induction paths generalizing frontier with
  | nil =>
    obtain rfl := Except.ok.inj searched
    exact .wider frontierSound fun _ member => member
  | cons path rest ih =>
    obtain ⟨⟨soundPath, within⟩, sound⟩ := List.forall_mem_cons.mp sound
    obtain ⟨slots, chosen, searched⟩ := bind_eq_ok.mp searched
    have result := around_sound deeper soundPath
      (fun slot member => ⟨slots, chosen, member⟩) frontierSound within
    generalize around isFull deeper path slots frontier = outcome at result searched
    cases result with
    | found soundFound moved free =>
      obtain rfl := Except.ok.inj searched
      exact .found soundFound moved free
    | @wider wider soundWider grown =>
      have inside : ∀ path ∈ rest, path.Sound isFull (MayMove choices) starts ∧
          ∀ slot ∈ path.slot :: path.earlier, slot ∈ wider.visited := fun path member =>
        ⟨(sound path member).1, fun slot onPath => grown slot ((sound path member).2 slot onPath)⟩
      exact (ih inside soundWider searched).mono grown

theorem Search.run_sound {levels : Nat} {paths : List KickPath} {path : KickPath} {empty : Nat}
    (sound : ∀ path ∈ paths, path.Sound isFull (MayMove choices) starts ∧
      ∀ slot ∈ path.slot :: path.earlier, slot ∈ visited)
    (searched : run isFull choices levels paths visited = .ok (some (path, empty))) :
    path.Sound isFull (MayMove choices) starts ∧ MayMove choices path.slot empty ∧
      isFull empty = false := by
  induction levels generalizing paths visited with
  | zero => cases searched
  | succ levels ih =>
    obtain ⟨search, level, searched⟩ := bind_eq_ok.mp searched
    have result := level_sound sound (fun _ none => absurd none List.not_mem_nil) level
    cases result with
    | found soundFound moved free =>
      obtain ⟨rfl, rfl⟩ := Prod.mk.inj (Option.some.inj (Except.ok.inj searched))
      exact ⟨soundFound, moved, free⟩
    | wider soundWider _ => exact ih soundWider searched

/-- A path and an empty slot that are found make a chain of distinct slots from one of the
candidates, all of which are full but the empty one. -/
theorem findRoom_chain {candidates : List Nat} {path : KickPath} {empty : Nat}
    (full : ∀ slot ∈ candidates, isFull slot = true)
    (found : findRoom isFull choices candidates = .ok (some (path, empty))) :
    Chain (MayMove choices) candidates (path.slot :: path.earlier) empty ∧
      (empty :: path.slot :: path.earlier).Nodup ∧ isFull empty = false := by
  have starts : ∀ path ∈ candidates.eraseDups.map fun slot => ({ slot } : KickPath),
      path.Sound isFull (MayMove choices) candidates ∧
        ∀ slot ∈ path.slot :: path.earlier, slot ∈ candidates.eraseDups := by
    intro path member
    obtain ⟨slot, start, rfl⟩ := List.mem_map.mp member
    have candidate := List.mem_eraseDups.mp start
    exact ⟨⟨candidate, List.nodup_singleton slot, by simpa using full slot candidate⟩,
      by simpa using start⟩
  obtain ⟨sound, moved, free⟩ := Search.run_sound starts found
  refine ⟨⟨moved, sound.chain⟩, List.nodup_cons.mpr ⟨fun onPath => ?_, sound.distinct⟩, free⟩
  rw [sound.full empty onPath] at free
  cases free

theorem Search.level_ok (isFull : Nat → Bool)
    (choose : ∀ slot, ∃ slots, choices slot = .ok slots) (deeper : Bool) (paths : List KickPath)
    (frontier : Frontier) :
    ∃ search, level isFull choices deeper paths frontier = .ok search := by
  induction paths generalizing frontier with
  | nil => exact ⟨_, rfl⟩
  | cons path rest ih =>
    obtain ⟨slots, chosen⟩ := choose path.slot
    simp only [level, chosen, bind, Except.bind]
    split
    · exact ⟨_, rfl⟩
    · exact ih _

theorem Search.run_ok (isFull : Nat → Bool) (choose : ∀ slot, ∃ slots, choices slot = .ok slots)
    (levels : Nat) (paths : List KickPath) (visited : List Nat) :
    ∃ answer, run isFull choices levels paths visited = .ok answer := by
  induction levels generalizing paths visited with
  | zero => exact ⟨_, rfl⟩
  | succ levels ih =>
    obtain ⟨search, searched⟩ := level_ok isFull choose (levels ≠ 0) paths { visited }
    simp only [run, searched, bind, Except.bind]
    split
    · exact ⟨_, rfl⟩
    · exact ih _ _

/-- A search that can ask every occupant for its choices comes to an end. -/
theorem findRoom_ok (isFull : Nat → Bool) (choose : ∀ slot, ∃ slots, choices slot = .ok slots)
    (candidates : List Nat) : ∃ answer, findRoom isFull choices candidates = .ok answer :=
  Search.run_ok isFull choose ..

end Search

end WriteBuffer
