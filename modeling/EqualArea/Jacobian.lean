import EqualArea.Coordinate.Basic
import EqualArea.Ellipsoid.Basic

/-!
# Jacobians

The partial derivatives of a map projection at a point, estimated from its values at four points
around it.

* `Jacobian` — the four derivatives.
* `Jacobian.estimate` — the estimate, for a map that may fail or keep a log.
* `Jacobian.determinant`, `Jacobian.arealScale` — how areas change.

**Design.**  The map runs in any monad, and its values are asked for in a fixed order, so the
first failure is the failure of the whole.  Each derivative is a difference over all four points,
which makes it exact on every polynomial of degree two.
-/

namespace EqualArea

/-- The partial derivatives of the easting and the northing by longitude and latitude. -/
structure Jacobian (α : Type) where
  /-- The derivative of the easting by the longitude. -/
  eastByLongitude : α
  /-- The derivative of the northing by the latitude. -/
  northByLatitude : α
  /-- The derivative of the easting by the latitude. -/
  eastByLatitude : α
  /-- The derivative of the northing by the longitude. -/
  northByLongitude : α

namespace Jacobian

variable {α : Type} [Arith α]

/-- The derivatives from the values at the four corners of a square of twice the step, which are
asked for from the north-east on in the sense of the clock.  Each sum starts from zero and takes the
corners in that order. -/
def estimate {m : Type → Type} [Monad m] (step : α) (f : Coordinate α → m (Coordinate α))
    (point : Coordinate α) : m (Jacobian α) := do
  let ne ← f ⟨point.first + step, point.second + step⟩
  let se ← f ⟨point.first + step, point.second - step⟩
  let sw ← f ⟨point.first - step, point.second - step⟩
  let nw ← f ⟨point.first - step, point.second + step⟩
  let span := 4 * step
  return {
    eastByLongitude := (0 + ne.first + se.first - sw.first - nw.first) / span
    northByLatitude := (0 + ne.second - se.second - sw.second + nw.second) / span
    eastByLatitude := (0 + ne.first - se.first - sw.first + nw.first) / span
    northByLongitude := (0 + ne.second + se.second - sw.second - nw.second) / span }

/-- The step of the estimates, in radians. -/
def step : α := 1e-8

/-- The derivatives of a map at a point. -/
def ofMap {m : Type → Type} [Monad m] (f : Coordinate α → m (Coordinate α))
    (point : Coordinate α) : m (Jacobian α) :=
  estimate step f point

/-- The determinant. -/
def determinant (j : Jacobian α) : α :=
  j.eastByLongitude * j.northByLatitude - j.eastByLatitude * j.northByLongitude

/-- The ratio of an area on the map to the area on the ellipsoid it is the image of, at a
latitude. -/
def arealScale (j : Jacobian α) (e : Ellipsoid α) (latitude : α) : α :=
  Arith.abs j.determinant /
    (e.meridianRadius latitude * e.primeVerticalRadius latitude * Arith.cos latitude)

end Jacobian

end EqualArea
