import EqualArea.Arith

/-!
# Coordinates

A coordinate is a pair of numbers with no fixed meaning.  In the plane of the map the first is
the easting and the second the northing; on the ellipsoid the first is the longitude and the
second the latitude, in radians.

* `Coordinate` — the pair, with addition, subtraction and comparison element by element.
* `Coordinate.geo`, `Coordinate.gis` — from latitude and longitude in degrees, in either order.
* `Coordinate.nan`, `Coordinate.origin` — the coordinate that is nowhere, and the origin.
* `Coordinate.get?`, `Coordinate.set?` — the elements by index; nothing beyond the second.
* `Coordinate.radians`, `Coordinate.degrees`, `Coordinate.toGeo` — changes of the angular unit.
-/

namespace EqualArea

/-- A pair of numbers. -/
@[ext] structure Coordinate (α : Type) where
  /-- Easting or longitude. -/
  first : α
  /-- Northing or latitude. -/
  second : α

namespace Coordinate

variable {α : Type}

/-! ## Elements by index -/

/-- The element at an index. -/
def get? (c : Coordinate α) : Nat → Option α
  | 0 => some c.first
  | 1 => some c.second
  | _ => none

/-- The coordinate with another element at an index. -/
def set? (c : Coordinate α) : Nat → α → Option (Coordinate α)
  | 0, x => some { c with first := x }
  | 1, x => some { c with second := x }
  | _, _ => none

variable [Arith α]

/-! ## Special coordinates -/

/-- The coordinate that is nowhere. -/
def nan : Coordinate α := ⟨Arith.nan, Arith.nan⟩

/-- The origin. -/
def origin : Coordinate α := ⟨0, 0⟩

/-- Whether both elements are finite. -/
def isFinite (c : Coordinate α) : Bool := Arith.isFinite c.first && Arith.isFinite c.second

/-! ## Arithmetic -/

instance : BEq (Coordinate α) where
  beq c d := c.first == d.first && c.second == d.second

instance : Add (Coordinate α) where
  add c d := ⟨c.first + d.first, c.second + d.second⟩

instance : Sub (Coordinate α) where
  sub c d := ⟨c.first - d.first, c.second - d.second⟩

/-! ## Angles -/

/-- From latitude and longitude in degrees. -/
def geo (latitude longitude : α) : Coordinate α :=
  ⟨Arith.radians longitude, Arith.radians latitude⟩

/-- From longitude and latitude in degrees. -/
def gis (longitude latitude : α) : Coordinate α :=
  ⟨Arith.radians longitude, Arith.radians latitude⟩

/-- From degrees to radians. -/
def radians (c : Coordinate α) : Coordinate α :=
  ⟨Arith.radians c.first, Arith.radians c.second⟩

/-- From radians to degrees. -/
def degrees (c : Coordinate α) : Coordinate α :=
  ⟨Arith.degrees c.first, Arith.degrees c.second⟩

/-- From longitude and latitude in radians to latitude and longitude in degrees. -/
def toGeo (c : Coordinate α) : Coordinate α :=
  ⟨Arith.degrees c.second, Arith.degrees c.first⟩

end Coordinate

end EqualArea
