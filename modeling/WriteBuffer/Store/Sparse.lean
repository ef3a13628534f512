/-!
Arrays of a given size of which few slots are filled. The filled slots are kept in ascending order,
so a scan meets them as a scan of the whole array would. Filling a slot changes what that slot
holds and nothing else (`get?_put`), and so does emptying it (`get?_erase`).
-/
namespace WriteBuffer

/-- An array of `size` slots, given by its filled slots in ascending order. -/
structure Sparse (α : Type) where
  size : Nat
  cells : List (Nat × α)
  ascending : cells.Pairwise (·.1 < ·.1)

namespace Sparse

variable {α : Type}

def empty (size : Nat) : Sparse α where
  size
  cells := []
  ascending := .nil

def get? (slots : Sparse α) (index : Nat) : Option α := slots.cells.lookup index

/-- Ascending cells with one slot refilled. -/
def putCell (index : Nat) (value : α) : List (Nat × α) → List (Nat × α)
  | [] => [(index, value)]
  | cell :: rest =>
    if index < cell.1 then (index, value) :: cell :: rest
    else if index = cell.1 then (index, value) :: rest
    else cell :: putCell index value rest

theorem mem_putCell {index : Nat} {value : α} {cells : List (Nat × α)} {cell : Nat × α}
    (member : cell ∈ putCell index value cells) : cell = (index, value) ∨ cell ∈ cells := by
  induction cells with
  | nil => simpa [putCell] using member
  | cons first rest ih =>
    simp only [putCell] at member
    split at member
    · simpa using member
    · split at member
      · rcases List.mem_cons.mp member with same | later
        · exact .inl same
        · exact .inr (List.mem_cons_of_mem _ later)
      · rcases List.mem_cons.mp member with same | later
        · exact .inr (by simp [same])
        · exact (ih later).imp id (List.mem_cons_of_mem _)

theorem ascending_putCell (index : Nat) (value : α) {cells : List (Nat × α)}
    (ascending : cells.Pairwise (·.1 < ·.1)) :
    (putCell index value cells).Pairwise (·.1 < ·.1) := by
  induction cells with
  | nil => simp [putCell]
  | cons first rest ih =>
    obtain ⟨below, ascending⟩ := List.pairwise_cons.mp ascending
    simp only [putCell]
    split
    · next before =>
      refine List.pairwise_cons.mpr ⟨?_, List.pairwise_cons.mpr ⟨below, ascending⟩⟩
      intro cell member
      rcases List.mem_cons.mp member with same | later
      · exact same ▸ before
      · exact Nat.lt_trans before (below cell later)
    · split
      · next same =>
        exact List.pairwise_cons.mpr ⟨fun cell member => same ▸ below cell member, ascending⟩
      · refine List.pairwise_cons.mpr ⟨?_, ih ascending⟩
        intro cell member
        rcases mem_putCell member with same | later
        · simp only [same]
          omega
        · exact below cell later

theorem lookup_putCell (index other : Nat) (value : α) (cells : List (Nat × α)) :
    (putCell index value cells).lookup other
      = if other = index then some value else cells.lookup other := by
  induction cells with
  | nil => grind [putCell]
  | cons first rest ih =>
    by_cases same : other = index <;> grind [putCell]

def put (slots : Sparse α) (index : Nat) (value : α) : Sparse α where
  size := slots.size
  cells := putCell index value slots.cells
  ascending := ascending_putCell index value slots.ascending

def erase (slots : Sparse α) (index : Nat) : Sparse α where
  size := slots.size
  cells := slots.cells.filter (·.1 ≠ index)
  ascending := slots.ascending.filter _

/-- Makes a slot hold a value or nothing. -/
def store (slots : Sparse α) (index : Nat) : Option α → Sparse α
  | some value => slots.put index value
  | none => slots.erase index

/-- The contents of the filled slots, in the order of the slots. -/
def values (slots : Sparse α) : List α := slots.cells.map (·.2)

@[simp] theorem get?_empty (size index : Nat) : (empty size : Sparse α).get? index = none := rfl

@[simp] theorem get?_put (slots : Sparse α) (index other : Nat) (value : α) :
    (slots.put index value).get? other
      = if other = index then some value else slots.get? other :=
  lookup_putCell index other value slots.cells

@[simp] theorem get?_erase (slots : Sparse α) (index other : Nat) :
    (slots.erase index).get? other = if other = index then none else slots.get? other := by
  simp only [get?, erase]
  induction slots.cells with
  | nil => simp
  | cons cell rest ih => grind

end Sparse

end WriteBuffer
