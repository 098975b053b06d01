import EqualArea.Coordinate.Basic

/-!
# Coordinate tuples

Coordinates of user data may have any number of elements.  Whatever has numbered elements that
can be read and replaced is a coordinate tuple, and the library reads its first two.

* `CoordinateTuple` — the elements by index, and a tuple with the same number everywhere.
* `nth`, `x?`, `y?`, `xy?` — reading.
* `refill?`, `setXy?` — replacing.
* `hypot2?` — the distance of two tuples in the plane of the first two elements.

**Design.**  A tuple decides itself what an index beyond its dimension gives: nothing, for a tuple
over an array, or the value that is no number, for a pair.  What is derived is defined from the
four operations alone and fails exactly where an element it needs gives nothing.
-/

namespace EqualArea

/-- A type whose values have numbered elements. -/
class CoordinateTuple (τ : Type) (α : outParam Type) where
  /-- The tuple with one value everywhere. -/
  fill : α → τ
  /-- The number of elements. -/
  dim : τ → Nat
  /-- The element at an index. -/
  nth? : τ → Nat → Option α
  /-- The tuple with another element at an index. -/
  setNth? : τ → Nat → α → Option τ

namespace CoordinateTuple

variable {α : Type} [Arith α] {τ : Type} [CoordinateTuple τ α]

/-! ## Reading -/

/-- The element at an index, and no number beyond the dimension. -/
def nth (t : τ) (n : Nat) : Option α := if n < dim t then nth? t n else some Arith.nan

omit [Arith α] in
/-- The first element. -/
def x? (t : τ) : Option α := nth? t 0

/-- The second element, and no number if there is only one. -/
def y? (t : τ) : Option α := if 1 < dim t then nth? t 1 else some Arith.nan

/-- The first two elements. -/
def xy? (t : τ) : Option (α × α) := do return (← x? t, ← y? t)

/-- The distance of two tuples in the plane. -/
def hypot2? (t u : τ) : Option α := do
  let (tx, ty) ← xy? t
  let (ux, uy) ← xy? u
  return Arith.hypot (tx - ux) (ty - uy)

/-! ## Replacing -/

omit [Arith α] in
/-- The tuple with every element replaced by one value. -/
def refill? (t : τ) (value : α) : Option τ :=
  (List.range (dim t)).foldlM (fun t n => setNth? t n value) t

/-- The tuple with its first two elements replaced; with fewer than two elements there is no
place for them, and no number is left anywhere. -/
def setXy? (t : τ) (x y : α) : Option τ :=
  if 1 < dim t then do setNth? (← setNth? t 0 x) 1 y else refill? t Arith.nan

omit [Arith α] in
/-- The tuple with its elements replaced by those of a list, from the first on. -/
def load? (t : τ) (elements : List α) : Option τ :=
  elements.zipIdx.foldlM (fun t (value, n) => setNth? t n value) t

end CoordinateTuple

/-! ## Instances -/

instance {α : Type} : CoordinateTuple (Coordinate α) α where
  fill value := ⟨value, value⟩
  dim _ := 2
  nth? := Coordinate.get?
  setNth? := Coordinate.set?

/-- In a pair of numbers there is no number beyond the second element, and nothing can be put
there. -/
instance {α : Type} [Arith α] : CoordinateTuple (α × α) α where
  fill value := (value, value)
  dim _ := 2
  nth?
    | p, 0 => some p.1
    | p, 1 => some p.2
    | _, _ => some Arith.nan
  setNth?
    | p, 0, value => some (value, p.2)
    | p, 1, value => some (p.1, value)
    | p, _, _ => some p

end EqualArea
