import EqualArea.Projection.Basic

/-!
# The mappings of the sphere

The projection of the unit sphere to the plane and back.

* `Projection.forwardSphere` — from longitude and latitude to the plane.
* `Projection.inverseSphere` — from the plane to longitude and latitude.

**Design.**  The polar aspects differ by the orientation of the northing, and the other two by
the rotation that takes the centre to the equator.  The image of the sphere is the closed disc of
radius two; its rim is the antipode of the centre, which has no image.
-/

namespace EqualArea

variable {α : Type} [Arith α]

namespace Projection

/-! ## Forward -/

/-- The image under an equatorial or oblique aspect.  The denominator, twice the squared cosine of
half the distance from the centre, vanishes at the antipode. -/
def scaledPoint (denominator easting northing : α) : Except Refusal (Coordinate α) :=
  if denominator ≤ tolerance then .error .beyondAntipode
  else
    let k := Arith.sqrt (2 / denominator)
    .ok ⟨k * easting, k * northing⟩

/-- From longitude and latitude on the unit sphere to the plane. -/
def forwardSphere (p : Projection α) (lambda phi : α) : Except Refusal (Coordinate α) :=
  let sinPhi := Arith.sin phi
  let cosPhi := Arith.cos phi
  let sinLambda := Arith.sin lambda
  let cosLambda := Arith.cos lambda
  let opposite := Arith.abs (phi + p.latitude) < tolerance
  let half := Arith.pi / 4 - phi * 0.5
  match p.aspect with
  | .equatorial => scaledPoint (1 + cosPhi * cosLambda) (cosPhi * sinLambda) sinPhi
  | .oblique =>
    scaledPoint (1 + p.sinCentre * sinPhi + p.cosCentre * cosPhi * cosLambda)
      (cosPhi * sinLambda) (p.cosCentre * sinPhi - p.sinCentre * cosPhi * cosLambda)
  | .northPolar =>
    if opposite then .error .antipode
    else
      let k := 2 * Arith.sin half
      .ok ⟨k * sinLambda, -k * cosLambda⟩
  | .southPolar =>
    if opposite then .error .antipode
    else
      let k := 2 * Arith.cos half
      .ok ⟨k * sinLambda, k * cosLambda⟩

/-! ## Inverse -/

/-- The longitude in the direction of a rotated point, where the centre itself has none and is
given zero. -/
def direction (x y : α) : α :=
  if y == 0 && x == 0 then 0 else Arith.atan2 x y

/-- From the plane to longitude and latitude on the unit sphere. -/
def inverseSphere (p : Projection α) (x y : α) : Except Refusal (Coordinate α) :=
  let rho := Arith.hypot x y
  if 1 < rho * 0.5 then .error .offSphere
  else
    let z := 2 * Arith.asin (rho * 0.5)
    let sinZ := Arith.sin z
    let cosZ := Arith.cos z
    match p.aspect with
    | .equatorial =>
      let phi := if rho ≤ tolerance then 0 else Arith.asin (y * sinZ / rho)
      .ok ⟨direction (x * sinZ) (cosZ * rho), phi⟩
    | .oblique =>
      let phi :=
        if rho ≤ tolerance then p.latitude
        else Arith.asin (cosZ * p.sinCentre + y * sinZ * p.cosCentre / rho)
      .ok
        ⟨direction (x * sinZ * p.cosCentre) ((cosZ - Arith.sin phi * p.sinCentre) * rho), phi⟩
    | .northPolar => .ok ⟨Arith.atan2 x (-y), Arith.quarterTurn - z⟩
    | .southPolar => .ok ⟨Arith.atan2 x y, z - Arith.quarterTurn⟩

end Projection

end EqualArea
