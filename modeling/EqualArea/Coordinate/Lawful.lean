import EqualArea.Coordinate.Set

/-!
# Lawful coordinate sets

A collection of coordinates behaves like a list when every operation on it can be told from the
list of its members.

* `LawfulCoordinateSet` — the list of members, and what each operation does to it.
* instances for arrays, vectors and windows.
* `toList_put`, `size_put` — replacing a member.

**Design.**  `CoordinateSet` has no laws, so that any data with the operations can be handed to
an operator.  What is proved of an operator on a set is proved of lawful sets, through the list
of members and never through the data.
-/

namespace EqualArea

open CoordinateSet

/-- A collection of coordinates that behaves like the list of its members. -/
class LawfulCoordinateSet (σ : Type) (α : outParam Type) [Arith α] [CoordinateSet σ α] where
  /-- The members, in the order of their indices. -/
  toList : σ → List (Coordinate α)
  /-- The size is the length of the list. -/
  size_eq : ∀ s : σ, size s = (toList s).length
  /-- Reading reads the list. -/
  get?_eq : ∀ (s : σ) (i : Nat), get? s i = (toList s)[i]?
  /-- Replacing replaces in the list, within its length only. -/
  map_set? : ∀ (s : σ) (i : Nat) (c : Coordinate α),
    (set? s i c).map toList = if i < size s then some ((toList s).set i c) else none
  /-- The elements of a member are those of the member read. -/
  xy?_eq : ∀ (s : σ) (i : Nat), xy? s i = (get? s i).map fun c => (c.first, c.second)
  /-- Replacing the elements of a member replaces the member. -/
  setXy?_eq : ∀ (s : σ) (i : Nat) (x y : α), setXy? s i x y = set? s i ⟨x, y⟩

namespace LawfulCoordinateSet

variable {α : Type} [Arith α] {σ : Type} [CoordinateSet σ α] [LawfulCoordinateSet σ α]

/-- Beyond the size there is nothing to replace, in the list as in the set. -/
theorem toList_put (s : σ) (i : Nat) (c : Coordinate α) :
    toList (put s i c) = (toList s).set i c := by
  have h := map_set? s i c
  unfold put
  cases hs : set? s i c with
  | none =>
    rw [hs] at h
    split at h
    · simp at h
    · rename_i hi
      rw [size_eq] at hi
      simp [List.set_eq_of_length_le (Nat.le_of_not_lt hi)]
  | some t =>
    rw [hs] at h
    split at h
    · simpa using h
    · simp at h

@[simp] theorem size_put (s : σ) (i : Nat) (c : Coordinate α) : size (put s i c) = size s := by
  rw [size_eq, size_eq, toList_put, List.length_set]

end LawfulCoordinateSet

/-! ## Instances -/

variable {α : Type} [Arith α]

instance : LawfulCoordinateSet (Array (Coordinate α)) α where
  toList := Array.toList
  size_eq s := by simp [size]
  get?_eq s i := by simp [get?]
  map_set? s i c := by
    by_cases h : i < s.size <;> simp [set?, size, h]
  xy?_eq _ _ := rfl
  setXy?_eq _ _ _ _ := rfl

instance {n : Nat} : LawfulCoordinateSet (Vector (Coordinate α) n) α where
  toList := Vector.toList
  size_eq s := by simp [size]
  get?_eq s i := by simp [get?]
  map_set? s i c := by
    by_cases h : i < n <;> simp [set?, size, h, Vector.toList_set]
  xy?_eq _ _ := rfl
  setXy?_eq _ _ _ _ := rfl

/-- The members of a window are the stretch of the list of the array. -/
instance : LawfulCoordinateSet (Window α) α where
  toList w := (w.array.toList.drop w.start).take w.length
  size_eq w := by
    have := w.le_size
    simp [size]
    omega
  get?_eq w i := by
    rw [List.getElem?_take]
    by_cases h : i < w.length <;> simp [get?, Window.get?, h]
  map_set? w i c := by
    by_cases h : i < w.length
    · have hs : ¬w.start + i < w.start := by omega
      simp [set?, size, h, Window.set, List.drop_set, List.take_set, hs]
    · simp [set?, size, h]
  xy?_eq _ _ := rfl
  setXy?_eq _ _ _ _ := rfl

end EqualArea
