import EqualArea.Projection.Basic

/-!
# The mappings of the ellipsoid

The projection of an ellipsoid of unit semimajor axis to the plane and back, by way of the
authalic latitude.

* `Projection.forwardEllipsoid` — from longitude and latitude to the plane.
* `Projection.inverseEllipsoid` — from the plane to longitude and latitude.
* `Projection.Bearing`, `Projection.bearing` — what a point of the plane says about longitude and
  latitude before the angles are taken.

**Design.**  With the authalic latitude in place of the geographic one the ellipsoid is mapped
like a sphere of the same area.  The polar aspects read the distance from the centre off the
authalic integral directly; the others scale the two axes so that the map is true to scale at the
centre.  Both mappings need the constants for the ellipsoid and refuse without them.
-/

namespace EqualArea

variable {α : Type} [Arith α]

namespace Projection

/-! ## Forward -/

/-- The distance from the centre of a point of an equatorial or oblique aspect, as a multiple of
the sine of that distance on the sphere.  The argument vanishes at the antipode. -/
def radialScale (b : α) : Except Refusal α :=
  if Arith.abs b < tolerance then .error .antipode else .ok (Arith.sqrt (2 / b))

/-- The square of a distance from a pole below which a point is taken for the pole. -/
def poleLimit : α := 1e-15

/-- The distance from the centre of a point of a polar aspect, of which the angular distance from
the opposite pole and the squared distance on the map are given. -/
def polarRadius (fromAntipode squared : α) : Except Refusal (Option α) :=
  if Arith.abs fromAntipode < tolerance then .error .antipode
  else if squared < poleLimit then .ok none
  else .ok (some (Arith.sqrt squared))

/-- From longitude and latitude on the ellipsoid to the plane. -/
def forwardEllipsoid (p : Projection α) (lambda phi : α) : Except Refusal (Coordinate α) :=
  match p.spheroid? with
  | none => .error .released
  | some s =>
    let sinLambda := Arith.sin lambda
    let cosLambda := Arith.cos lambda
    let xi := s.authalicLatitude phi
    let sinXi := Arith.sin xi
    let cosXi := Arith.cos xi
    let q := sinXi * s.poleIntegral
    match p.aspect with
    | .oblique => do
      let k ← radialScale (1 + p.sinCentre * sinXi + p.cosCentre * cosXi * cosLambda)
      return ⟨s.eastFactor * k * cosXi * sinLambda,
        s.northFactor * k * (p.cosCentre * sinXi - p.sinCentre * cosXi * cosLambda)⟩
    | .equatorial => do
      let k ← radialScale (1 + cosXi * cosLambda)
      return ⟨s.eastFactor * k * cosXi * sinLambda, k * sinXi * s.northFactor⟩
    -- A polar aspect takes its distances from the area around the pole, so it needs no stretch.
    | .northPolar => do
      match ← polarRadius (Arith.quarterTurn + phi) (s.poleIntegral - q) with
      | none => return Coordinate.origin
      | some rho => return ⟨rho * sinLambda, -rho * cosLambda⟩
    | .southPolar => do
      match ← polarRadius (phi - Arith.quarterTurn) (s.poleIntegral + q) with
      | none => return Coordinate.origin
      | some rho => return ⟨rho * sinLambda, rho * cosLambda⟩

/-! ## Inverse -/

/-- What a point of the plane says about longitude and latitude: the sine of the authalic
latitude, and two numbers in the direction of the longitude. -/
structure Bearing (α : Type) where
  /-- The sine of the authalic latitude. -/
  sinAuthalic : α
  /-- A positive multiple of the sine of the longitude. -/
  east : α
  /-- The same multiple of the cosine of the longitude. -/
  north : α

/-- The bearing of a point under an equatorial or oblique aspect, and nothing at the centre. -/
def bearingOfDisc (p : Projection α) (s : Spheroid α) (x y : α) :
    Except Refusal (Option (Bearing α)) :=
  let x := x / s.stretch
  let y := y * s.stretch
  let rho := Arith.hypot x y
  let sinHalf := 0.5 * rho / s.authalicRadius
  if rho < tolerance then .ok none
  else if 1 < sinHalf then .error .offEllipsoid
  else
    let c := 2 * Arith.asin sinHalf
    let sinC := Arith.sin c
    let cosC := Arith.cos c
    if p.aspect = .oblique then
      .ok (some ⟨cosC * p.sinCentre + y * sinC * p.cosCentre / rho, x * sinC,
        rho * p.cosCentre * cosC - y * p.sinCentre * sinC⟩)
    else .ok (some ⟨y * sinC / rho, x * sinC, rho * cosC⟩)

/-- The bearing of a point, and nothing at the centre. -/
def bearing (p : Projection α) (s : Spheroid α) (x y : α) :
    Except Refusal (Option (Bearing α)) :=
  let squared := x * x + y * y
  match p.aspect with
  | .equatorial | .oblique => p.bearingOfDisc s x y
  | .northPolar =>
    .ok (if squared == 0 then none else some ⟨1 - squared / s.poleIntegral, x, -y⟩)
  | .southPolar =>
    .ok (if squared == 0 then none else some ⟨squared / s.poleIntegral - 1, x, y⟩)

/-- From the plane to longitude and latitude on the ellipsoid.  A sine beyond one by more than the
tolerance belongs to no latitude. -/
def inverseEllipsoid (p : Projection α) (x y : α) : Except Refusal (Coordinate α) :=
  match p.spheroid? with
  | none => .error .released
  | some s => do
    match ← p.bearing s x y with
    | none => return ⟨0, p.latitude⟩
    | some b =>
      if 1 + tolerance < Arith.abs b.sinAuthalic then .error .offEllipsoid
      else
        return ⟨Arith.atan2 b.east b.north,
          s.geographicLatitude (Arith.asin (Arith.clamp (-1) 1 b.sinAuthalic))⟩

end Projection

end EqualArea
