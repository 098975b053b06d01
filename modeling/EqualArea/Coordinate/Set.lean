import EqualArea.Coordinate.Tuple

/-!
# Coordinate sets

Operators work on any collection of coordinates of fixed size whose members can be read and
replaced by index.

* `CoordinateSet` — the collection: its size, and its members by index.
* `isEmpty`, `stomp` — derived from them.
* `Window` — a stretch of an array as a set of its own.
* instances for arrays, vectors and windows.

**Design.**  Reading and replacing give nothing for an index beyond the size.  The two accessors
for the elements of a member have defaults that go through the member as a tuple; arrays, vectors
and windows give their own, which reach into the array.
-/

namespace EqualArea

/-- A collection of coordinates, by index. -/
class CoordinateSet (σ : Type) (α : outParam Type) [Arith α] where
  /-- The number of members. -/
  size : σ → Nat
  /-- The member at an index. -/
  get? : σ → Nat → Option (Coordinate α)
  /-- The set with another member at an index. -/
  set? : σ → Nat → Coordinate α → Option σ
  /-- The two elements of the member at an index. -/
  xy? : σ → Nat → Option (α × α) := fun s i => (get? s i).bind CoordinateTuple.xy?
  /-- The set with the two elements of the member at an index replaced. -/
  setXy? : σ → Nat → α → α → Option σ := fun s i x y => set? s i ⟨x, y⟩

namespace CoordinateSet

variable {α : Type} [Arith α] {σ : Type} [CoordinateSet σ α]

/-- Whether there are no members. -/
def isEmpty (s : σ) : Bool := size s == 0

/-- The set with the given member put at an index, and as it was if it has no such index. -/
def put (s : σ) (i : Nat) (c : Coordinate α) : σ := (set? s i c).getD s

/-- The set with every member replaced by the coordinate that is nowhere. -/
def stomp (s : σ) : σ :=
  (List.range (size s)).foldl (fun s i => put s i Coordinate.nan) s

end CoordinateSet

/-! ## Windows -/

variable {α : Type}

/-- A stretch of an array. -/
structure Window (α : Type) where
  /-- The whole array. -/
  array : Array (Coordinate α)
  /-- The index of the first member in the array. -/
  start : Nat
  /-- The number of members. -/
  length : Nat
  /-- The stretch does not go beyond the array. -/
  le_size : start + length ≤ array.size

/-- The whole of an array as a window. -/
def Window.whole (array : Array (Coordinate α)) : Window α where
  array := array
  start := 0
  length := array.size
  le_size := by simp

/-- The member of a window at an index. -/
def Window.get? (w : Window α) (i : Nat) : Option (Coordinate α) :=
  if i < w.length then w.array[w.start + i]? else none

/-- Replacing a member of a window leaves the rest of the array as it is. -/
def Window.set (w : Window α) (i : Nat) (c : Coordinate α) (h : i < w.length) : Window α where
  array := w.array.set (w.start + i) c (by have := w.le_size; omega)
  start := w.start
  length := w.length
  le_size := by simpa using w.le_size

/-! ## Instances -/

variable [Arith α]

instance : CoordinateSet (Array (Coordinate α)) α where
  size := Array.size
  get? s i := s[i]?
  set? s i c := if h : i < s.size then some (s.set i c h) else none
  xy? s i := s[i]?.map fun c => (c.first, c.second)
  setXy? s i x y := if h : i < s.size then some (s.set i ⟨x, y⟩ h) else none

instance {n : Nat} : CoordinateSet (Vector (Coordinate α) n) α where
  size _ := n
  get? s i := s[i]?
  set? s i c := if h : i < n then some (s.set i c h) else none
  xy? s i := s[i]?.map fun c => (c.first, c.second)
  setXy? s i x y := if h : i < n then some (s.set i ⟨x, y⟩ h) else none

instance : CoordinateSet (Window α) α where
  size := Window.length
  get? := Window.get?
  set? w i c := if h : i < w.length then some (w.set i c h) else none
  xy? w i := (w.get? i).map fun c => (c.first, c.second)
  setXy? w i x y := if h : i < w.length then some (w.set i ⟨x, y⟩ h) else none

end EqualArea
