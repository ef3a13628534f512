import Mathlib
import WriteBuffer.Proofs.Table.Displacement

/-!
The search for room finds a shortest chain. Before each level every slot that takes fewer moves to
reach is full, and the paths of the level end in all slots that take just as many (`Layer`), so a
slot that was visited before hides no shorter chain. The search therefore finds a chain of least
length (`findRoom_shortest`), and finds none only if all chains are too long (`findRoom_none`). On a
shortest chain no occupant could take the next but one slot (`Chain.moves_further`).
-/
namespace WriteBuffer

/-- A slot that some number of moves leads to. -/
def Reached (moves : Nat → Nat → Prop) (starts : List Nat) (steps slot : Nat) : Prop :=
  ∃ path, path.length = steps ∧ Chain moves starts path slot

section Shortest

variable {moves : Nat → Nat → Prop} {starts path : List Nat} {target slot source : Nat}

/-- No chain to the target of a path is shorter. -/
def Shortest (moves : Nat → Nat → Prop) (starts path : List Nat) (target : Nat) : Prop :=
  ∀ other, Chain moves starts other target → path.length ≤ other.length

/-- A shortest chain reaches its slots on shortest chains. -/
theorem Shortest.earlier (shortest : Shortest moves starts (source :: path) target)
    (moved : moves source target) : Shortest moves starts path source := by
  intro other chain
  exact Nat.le_of_succ_le_succ (shortest (source :: other) ⟨moved, chain⟩)

/-- On a shortest chain each slot has a choice that the slot whose content it gets does not have. -/
theorem Chain.moves_further (chain : Chain moves starts path target)
    (shortest : Shortest moves starts path target) (distinct : (target :: path).Nodup)
    (onPath : slot ∈ path) (found : origin path target slot = some source) :
    ∃ next, moves slot next ∧ ¬ moves source next := by
  induction path generalizing target with
  | nil => cases onPath
  | cons first earlier ih =>
    obtain ⟨moved, chain⟩ := chain
    obtain ⟨absent, distinct⟩ := List.nodup_cons.mp distinct
    have differs : slot ≠ target := fun same => absent (same ▸ onPath)
    rw [origin, if_neg differs] at found
    rcases List.mem_cons.mp onPath with rfl | later
    · cases earlier with
      | nil => simp [origin] at found
      | cons second rest =>
        obtain rfl : second = source := by simpa [origin] using found
        -- A move past the first slot would make the chain shorter.
        refine ⟨target, moved, fun direct => ?_⟩
        have skipped := shortest (second :: rest) ⟨direct, chain.2⟩
        simp at skipped
    · exact ih chain (shortest.earlier moved) distinct later found

end Shortest

/-- What a frontier is after a look at some slots, none of which was empty. -/
structure Frontier.Scanned (isFull : Nat → Bool) (deeper : Bool) (looked : Nat → Prop) (length : Nat)
    (before after : Frontier) : Prop where
  full : ∀ slot, looked slot → isFull slot = true
  marked : deeper = true → ∀ slot, looked slot → slot ∈ after.visited
  grown : ∀ slot ∈ before.visited, slot ∈ after.visited
  kept : ∀ path ∈ before.paths, path ∈ after.paths
  ended : ∀ slot ∈ after.visited, slot ∈ before.visited ∨ ∃ path ∈ after.paths, path.slot = slot
  longer : ∀ path ∈ after.paths, path ∈ before.paths ∨ path.earlier.length = length

namespace Frontier.Scanned

variable {isFull : Nat → Bool} {deeper : Bool} {looked further : Nat → Prop} {length : Nat}
  {before between after : Frontier}

theorem nothing (frontier : Frontier) :
    frontier.Scanned isFull deeper (fun _ => False) length frontier where
  full := fun _ => False.elim
  marked := fun _ _ => False.elim
  grown := fun _ member => member
  kept := fun _ member => member
  ended := fun _ member => .inl member
  longer := fun _ member => .inl member

theorem trans (first : before.Scanned isFull deeper looked length between)
    (second : between.Scanned isFull deeper further length after) :
    before.Scanned isFull deeper (fun slot => looked slot ∨ further slot) length after where
  full := fun slot seen => seen.elim (first.full slot) (second.full slot)
  marked := fun deeper slot seen => seen.elim
    (fun seen => second.grown slot (first.marked deeper slot seen)) (second.marked deeper slot)
  grown := fun slot member => second.grown slot (first.grown slot member)
  kept := fun path member => second.kept path (first.kept path member)
  ended := by
    intro slot member
    rcases second.ended slot member with earlier | new
    · exact (first.ended slot earlier).imp_right fun ⟨path, found, same⟩ =>
        ⟨path, second.kept path found, same⟩
    · exact .inr new
  longer := fun path member => (second.longer path member).elim (first.longer path) .inr

theorem congr (scanned : before.Scanned isFull deeper looked length after)
    (same : ∀ slot, further slot → looked slot) :
    before.Scanned isFull deeper further length after where
  __ := scanned
  full := fun slot seen => scanned.full slot (same slot seen)
  marked := fun deeper slot seen => scanned.marked deeper slot (same slot seen)

/-- A look at one full slot, after which it is visited if the search goes deeper. -/
theorem one {slot : Nat} {frontier : Frontier} (full : isFull slot = true)
    (visited : deeper = true → slot ∈ frontier.visited) :
    frontier.Scanned isFull deeper (· = slot) length frontier where
  __ : frontier.Scanned isFull deeper _ length frontier := nothing frontier
  full := fun _ same => same ▸ full
  marked := fun deeper _ same => same ▸ visited deeper

/-- A look at one full slot that is new, and to which a path is added. -/
theorem extended {frontier : Frontier} {path : KickPath} {slot : Nat} (full : isFull slot = true) :
    frontier.Scanned isFull deeper (· = slot) path.length
      ⟨frontier.paths ++ [path.extend slot], slot :: frontier.visited⟩ where
  full := fun _ same => same ▸ full
  marked := fun _ _ same => same ▸ List.mem_cons_self
  grown := fun _ member => List.mem_cons_of_mem _ member
  kept := fun _ member => List.mem_append_left _ member
  ended := by
    intro other member
    rcases List.mem_cons.mp member with rfl | old
    · exact .inr ⟨path.extend other, List.mem_append_right _ (List.mem_singleton_self _), rfl⟩
    · exact .inl old
  longer := by
    intro other member
    refine (List.mem_append.mp member).imp_right fun added => ?_
    rw [List.mem_singleton.mp added]
    rfl

end Frontier.Scanned

namespace Search

variable {isFull : Nat → Bool} {choices : Nat → Except Failure (List Nat)} {deeper : Bool}
  {paths : List KickPath} {path other : KickPath} {empty : Nat} {frontier wider : Frontier}

theorem around_scanned {slots : List Nat} (full : isFull path.slot = true)
    (visited : path.slot ∈ frontier.visited)
    (looked : around isFull deeper path slots frontier = .wider wider) :
    frontier.Scanned isFull deeper (· ∈ slots) path.length wider := by
  induction slots generalizing frontier with
  | nil =>
    obtain rfl := Search.wider.inj looked
    exact (Frontier.Scanned.nothing frontier).congr fun _ => List.not_mem_nil
  | cons slot rest ih =>
    -- The slot itself is scanned first, then the others from the frontier it leaves.
    have first : ∀ {next : Frontier}, frontier.Scanned isFull deeper (· = slot) path.length next →
        around isFull deeper path rest next = .wider wider →
          frontier.Scanned isFull deeper (· ∈ slot :: rest) path.length wider := by
      intro next scanned looked
      exact (scanned.trans (ih (scanned.grown _ visited) looked)).congr fun _ => List.mem_cons.mp
    rw [around] at looked
    split at looked
    · next same => exact first (.one (same ▸ full) fun _ => same ▸ visited) looked
    · split at looked
      · next filled =>
        split at looked
        · exact first (.extended filled) looked
        · next old => exact first (.one filled fun deep => by simpa [deep] using old) looked
      · cases looked

theorem around_found {slots : List Nat}
    (found : around isFull deeper path slots frontier = .found other empty) : other = path := by
  induction slots generalizing frontier with
  | nil => cases found
  | cons slot rest ih =>
    simp only [around] at found
    split at found
    · exact ih found
    · split at found
      · split at found <;> exact ih found
      · exact (Search.found.inj found).1.symm

theorem level_scanned {length : Nat} (each : ∀ path ∈ paths,
      isFull path.slot = true ∧ path.slot ∈ frontier.visited ∧ path.length = length)
    (searched : level isFull choices deeper paths frontier = .ok (.wider wider)) :
    frontier.Scanned isFull deeper (fun slot => ∃ path ∈ paths, MayMove choices path.slot slot)
      length wider := by
  induction paths generalizing frontier with
  | nil =>
    obtain rfl := Search.wider.inj (Except.ok.inj searched)
    exact (Frontier.Scanned.nothing frontier).congr fun _ => by simp
  | cons path rest ih =>
    obtain ⟨⟨full, visited, rfl⟩, each⟩ := List.forall_mem_cons.mp each
    obtain ⟨slots, chosen, searched⟩ := bind_eq_ok.mp searched
    cases looked : around isFull deeper path slots frontier with
    | found other empty =>
      rw [looked] at searched
      cases searched
    | wider next =>
      rw [looked] at searched
      have first := around_scanned full visited looked
      have second := ih (fun path member =>
        ⟨(each path member).1, first.grown _ (each path member).2.1, (each path member).2.2⟩) searched
      refine (first.trans second).congr ?_
      rintro slot ⟨other, member, among, chosenToo, found⟩
      rcases List.mem_cons.mp member with rfl | later
      · obtain rfl := Except.ok.inj (chosen.symm.trans chosenToo)
        exact .inl found
      · exact .inr ⟨other, later, among, chosenToo, found⟩

/-- Room is found around the end of one of the paths. -/
theorem level_found
    (searched : level isFull choices deeper paths frontier = .ok (.found other empty)) :
    other ∈ paths := by
  induction paths generalizing frontier with
  | nil => cases searched
  | cons path rest ih =>
    obtain ⟨slots, _, searched⟩ := bind_eq_ok.mp searched
    cases looked : around isFull deeper path slots frontier with
    | found first slot =>
      rw [looked] at searched
      obtain ⟨rfl, -⟩ := Search.found.inj (Except.ok.inj searched)
      exact around_found looked ▸ List.mem_cons_self
    | wider next =>
      rw [looked] at searched
      exact List.mem_cons_of_mem _ (ih searched)

end Search

/-- The paths before a level that is some number of moves away from the starts. They end in all slots
that take just as many moves to reach, and no visited slot takes more. -/
structure Layer (isFull : Nat → Bool) (moves : Nat → Nat → Prop) (starts : List Nat) (steps : Nat)
    (paths : List KickPath) (visited : List Nat) : Prop where
  sound : ∀ path ∈ paths, path.Sound isFull moves starts ∧
    ∀ slot ∈ path.slot :: path.earlier, slot ∈ visited
  away : ∀ path ∈ paths, path.earlier.length = steps
  near : ∀ slot ∈ visited, ∃ fewer ≤ steps, Reached moves starts fewer slot
  complete : ∀ slot, Reached moves starts steps slot →
    (∃ path ∈ paths, path.slot = slot) ∨ ∃ fewer < steps, Reached moves starts fewer slot

/-- All slots that at most some number of moves lead to are full. -/
def FullWithin (isFull : Nat → Bool) (moves : Nat → Nat → Prop) (starts : List Nat) (steps : Nat) :
    Prop :=
  ∀ fewer ≤ steps, ∀ slot, Reached moves starts fewer slot → isFull slot = true

section Layers

variable {isFull : Nat → Bool} {choices : Nat → Except Failure (List Nat)} {starts visited : List Nat}
  {steps : Nat} {paths : List KickPath} {deeper : Bool} {wider : Frontier}

/-- What the next level leads to is looked at on this one, or takes fewer moves to reach. -/
theorem Layer.next_cases {moves : Nat → Nat → Prop}
    (layer : Layer isFull moves starts steps paths visited) {slot : Nat}
    (reached : Reached moves starts (steps + 1) slot) :
    (∃ path ∈ paths, moves path.slot slot) ∨ ∃ fewer ≤ steps, Reached moves starts fewer slot := by
  obtain ⟨_ | ⟨source, earlier⟩, length, chain⟩ := reached
  · cases length
  · obtain ⟨moved, chain⟩ := chain
    rcases layer.complete source ⟨earlier, Nat.succ.inj length, chain⟩ with
      ⟨path, member, rfl⟩ | ⟨fewer, less, path, rfl, short⟩
    · exact .inl ⟨path, member, moved⟩
    · exact .inr ⟨path.length + 1, less, source :: path, rfl, moved, short⟩

/-- A level on which no room is found. -/
theorem Layer.scanned (layer : Layer isFull (MayMove choices) starts steps paths visited)
    (searched : Search.level isFull choices deeper paths { visited } = .ok (.wider wider)) :
    Frontier.Scanned isFull deeper (fun slot => ∃ path ∈ paths, MayMove choices path.slot slot)
      (steps + 1) { visited } wider :=
  Search.level_scanned (fun path member =>
    ⟨(layer.sound path member).1.full _ List.mem_cons_self,
      (layer.sound path member).2 _ List.mem_cons_self,
      congrArg (· + 1) (layer.away path member)⟩) searched

theorem FullWithin.next (full : FullWithin isFull (MayMove choices) starts steps)
    (layer : Layer isFull (MayMove choices) starts steps paths visited)
    (searched : Search.level isFull choices deeper paths { visited } = .ok (.wider wider)) :
    FullWithin isFull (MayMove choices) starts (steps + 1) := by
  intro fewer most slot reached
  rcases Nat.le_succ_iff.mp most with few | rfl
  · exact full fewer few slot reached
  · rcases layer.next_cases reached with looked | ⟨few, most, reached⟩
    · exact (layer.scanned searched).full slot looked
    · exact full few most slot reached

theorem Layer.next (layer : Layer isFull (MayMove choices) starts steps paths visited)
    (searched : Search.level isFull choices true paths { visited } = .ok (.wider wider)) :
    Layer isFull (MayMove choices) starts (steps + 1) wider.paths wider.visited := by
  have scanned := layer.scanned searched
  have sound : wider.Sound isFull (MayMove choices) starts := by
    cases Search.level_sound layer.sound (fun _ none => absurd none List.not_mem_nil) searched with
    | wider sound _ => exact sound
  have away : ∀ path ∈ wider.paths, path.earlier.length = steps + 1 := fun path member =>
    (scanned.longer path member).resolve_left List.not_mem_nil
  refine ⟨sound, away, ?_, ?_⟩
  · intro slot member
    rcases scanned.ended slot member with old | ⟨path, found, rfl⟩
    · exact (layer.near slot old).imp fun fewer => And.imp_left Nat.le_succ_of_le
    · exact ⟨steps + 1, le_rfl, path.earlier, away path found, (sound path found).1.chain⟩
  · intro slot reached
    rcases layer.next_cases reached with looked | ⟨fewer, most, reached⟩
    · refine (scanned.ended slot (scanned.marked rfl slot looked)).symm.imp_right fun old => ?_
      exact (layer.near slot old).imp fun fewer => And.imp_left Nat.lt_succ_of_le
    · exact .inr ⟨fewer, Nat.lt_succ_of_le most, reached⟩

/-- What a search that makes at most some number of moves ends with: a path that no shorter chain can
replace, or nothing, and then all slots that it could reach are full. -/
inductive Search.Ends (isFull : Nat → Bool) (moves : Nat → Nat → Prop) (starts : List Nat)
    (most : Nat) : Option (KickPath × Nat) → Prop
  | room {path : KickPath} {empty : Nat} (short : path.length ≤ most)
    (full : FullWithin isFull moves starts path.earlier.length) :
    Ends isFull moves starts most (some (path, empty))
  | nothing (full : FullWithin isFull moves starts most) : Ends isFull moves starts most none

/-- A search from some level on. The level needs to be known only if the search goes on. -/
theorem Search.run_ends {levels : Nat} {answer : Option (KickPath × Nat)}
    (full : FullWithin isFull (MayMove choices) starts steps)
    (layer : levels ≠ 0 → Layer isFull (MayMove choices) starts steps paths visited)
    (searched : run isFull choices levels paths visited = .ok answer) :
    Ends isFull (MayMove choices) starts (steps + levels) answer := by
  induction levels generalizing paths visited steps with
  | zero =>
    obtain rfl := Except.ok.inj searched
    exact .nothing full
  | succ levels ih =>
    obtain ⟨search, looked, searched⟩ := bind_eq_ok.mp searched
    have here := layer (Nat.succ_ne_zero levels)
    cases search with
    | found path empty =>
      obtain rfl := Except.ok.inj searched
      have away := here.away path (level_found looked)
      exact .room (by simp only [KickPath.length, away]; omega) (away ▸ full)
    | wider frontier =>
      rw [← Nat.add_assoc, Nat.add_right_comm]
      exact ih (full.next here looked) (fun more => here.next (by simpa [more] using looked)) searched

/-- The starts of a search are its first level. -/
theorem layer_starts (candidates : List Nat) (full : ∀ slot ∈ candidates, isFull slot = true)
    (moves : Nat → Nat → Prop) :
    Layer isFull moves candidates 0 (candidates.eraseDups.map fun slot => { slot })
      candidates.eraseDups where
  sound := by
    intro path member
    obtain ⟨slot, start, rfl⟩ := List.mem_map.mp member
    have candidate := List.mem_eraseDups.mp start
    exact ⟨⟨candidate, List.nodup_singleton slot, by simpa using full slot candidate⟩,
      by simpa using start⟩
  away := by
    intro path member
    obtain ⟨slot, _, rfl⟩ := List.mem_map.mp member
    rfl
  near := fun slot member => ⟨0, le_rfl, [], rfl, List.mem_eraseDups.mp member⟩
  complete := by
    rintro slot ⟨path, length, chain⟩
    obtain rfl := List.length_eq_zero_iff.mp length
    exact .inl ⟨{ slot }, List.mem_map.mpr ⟨slot, List.mem_eraseDups.mpr chain, rfl⟩, rfl⟩

theorem fullWithin_starts {candidates : List Nat} (full : ∀ slot ∈ candidates, isFull slot = true)
    (moves : Nat → Nat → Prop) : FullWithin isFull moves candidates 0 := by
  rintro fewer none slot ⟨path, rfl, chain⟩
  obtain rfl := List.length_eq_zero_iff.mp (Nat.le_zero.mp none)
  exact full slot chain

/-- A chain that makes room is no shorter than the one that is found. -/
theorem findRoom_shortest {candidates : List Nat} {path : KickPath} {empty : Nat}
    (full : ∀ slot ∈ candidates, isFull slot = true)
    (found : findRoom isFull choices candidates = .ok (some (path, empty))) :
    path.length ≤ maxDisplacements ∧ ∀ other target,
      Chain (MayMove choices) candidates other target → isFull target = false →
        path.length ≤ other.length := by
  have ends := Search.run_ends (fullWithin_starts full _)
    (fun _ => layer_starts candidates full _) found
  cases ends with | room short within => ?_
  refine ⟨by simpa using short, fun other target chain free => ?_⟩
  by_contra fewer
  have filled := within other.length (by simp only [KickPath.length] at fewer; omega) target
    ⟨other, rfl, chain⟩
  cases filled.symm.trans free

/-- Where no room is found, every chain that makes room is too long. -/
theorem findRoom_none {candidates : List Nat} (full : ∀ slot ∈ candidates, isFull slot = true)
    (nothing : findRoom isFull choices candidates = .ok none) {path : List Nat} {target : Nat}
    (chain : Chain (MayMove choices) candidates path target) (free : isFull target = false) :
    maxDisplacements < path.length := by
  have ends := Search.run_ends (fullWithin_starts full _)
    (fun _ => layer_starts candidates full _) nothing
  cases ends with | nothing within => ?_
  by_contra short
  have filled := within path.length (by omega) target ⟨path, rfl, chain⟩
  cases filled.symm.trans free

end Layers

end WriteBuffer
