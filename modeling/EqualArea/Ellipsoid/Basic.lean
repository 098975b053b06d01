import EqualArea.Arith

/-!
# Ellipsoids of revolution

An ellipsoid is its semimajor axis and its flattening.  What else describes its shape is a
function of the flattening alone; the radii of curvature are functions of the latitude.

* `Ellipsoid` — the two numbers; two ellipsoids compare equal when both do.
* `semiminor`, `thirdFlattening`, `eccentricitySq`, `eccentricity`, `isSphere` — the shape.
* `primeVerticalRadius`, `meridianRadius` — the radii of curvature of the normal sections to the
  east and to the north.

**Design.**  Any two numbers make a value of the type: which of them an operator can be built on
is asked when one is built (`Parameters.check`), so that a description can be looked at first.
-/

namespace EqualArea

/-- An ellipsoid of revolution; a flattening of zero gives a sphere. -/
structure Ellipsoid (α : Type) where
  /-- The semimajor axis `a`. -/
  semimajor : α
  /-- The flattening `f = (a - b) / a`. -/
  flattening : α

namespace Ellipsoid

variable {α : Type} [Arith α]

instance : BEq (Ellipsoid α) where
  beq e f := e.semimajor == f.semimajor && e.flattening == f.flattening

/-- The ellipsoid with a given reciprocal flattening, where zero stands for a sphere. -/
def ofReciprocal (semimajor reciprocal : α) : Ellipsoid α where
  semimajor := semimajor
  flattening := if reciprocal == 0 then reciprocal else 1 / reciprocal

/-! ## Shape -/

/-- Whether the flattening is zero. -/
def isSphere (e : Ellipsoid α) : Bool := e.flattening == 0

/-- The semiminor axis `b`. -/
def semiminor (e : Ellipsoid α) : α := e.semimajor * (1 - e.flattening)

/-- The third flattening `n = (a - b) / (a + b)`. -/
def thirdFlattening (e : Ellipsoid α) : α := e.flattening / (2 - e.flattening)

/-- The square of the eccentricity, `(a² - b²) / a²`. -/
def eccentricitySq (e : Ellipsoid α) : α := e.flattening * (2 - e.flattening)

/-- The eccentricity. -/
def eccentricity (e : Ellipsoid α) : α := Arith.sqrt e.eccentricitySq

/-! ## Curvature -/

/-- The factor `1 - e² sin² φ` by which the radii of curvature depend on the latitude. -/
def curvatureTerm (e : Ellipsoid α) (latitude : α) : α :=
  1 - Arith.sq (Arith.sin latitude) * e.eccentricitySq

/-- The radius of curvature in the prime vertical, `N`. -/
def primeVerticalRadius (e : Ellipsoid α) (latitude : α) : α :=
  if e.isSphere then e.semimajor
  else e.semimajor / Arith.sqrt (e.curvatureTerm latitude)

/-- The radius of curvature in the meridian, `M`. -/
def meridianRadius (e : Ellipsoid α) (latitude : α) : α :=
  if e.isSphere then e.semimajor
  else e.semimajor * (1 - e.eccentricitySq) / Arith.pow (e.curvatureTerm latitude) 1.5

end Ellipsoid

end EqualArea
