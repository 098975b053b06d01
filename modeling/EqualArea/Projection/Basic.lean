import EqualArea.Aspect
import EqualArea.Authalic.Latitude
import EqualArea.Coordinate.Basic

/-!
# Lambert azimuthal equal area projections

A projection maps a sphere or an ellipsoid of unit semimajor axis to the plane, or back, with the
longitude counted from the meridian of its centre.

* `Spheroid` — what a projection keeps of an ellipsoid.
* `Projection` — the aspect, the latitude of the centre, and the constants that depend on them.
* `Projection.centredAt` — the projection of an ellipsoid centred at a latitude.
* `Projection.create`, `Projection.teardown` — the same with a log, and the release of the
  constants for the ellipsoid.

**Design.**  The constants for the ellipsoid are optional: a projection of a sphere has none, and
a projection that has released them can no longer be told from one that never had any.  The
mappings are in `Projection/Sphere.lean` and `Projection/Ellipsoid.lean`.  Constants that an
aspect does not use are zero, or one for the stretch.
-/

namespace EqualArea

/-- What a projection of an ellipsoid keeps of it. -/
structure Spheroid (α : Type) where
  /-- The ellipsoid. -/
  ellipsoid : Ellipsoid α
  /-- The authalic integral at the pole. -/
  poleIntegral : α
  /-- Half the reciprocal of `1 - e²`. -/
  halfReciprocal : α
  /-- The radius of the sphere of the same area. -/
  authalicRadius : α
  /-- The stretch that makes the map true to scale at its centre. -/
  stretch : α
  /-- The factor of the easting. -/
  eastFactor : α
  /-- The factor of the northing. -/
  northFactor : α
  /-- The coefficients of the series for the authalic latitude. -/
  series : Authalic.Coefficients α

/-- A Lambert azimuthal equal area projection. -/
structure Projection (α : Type) where
  /-- Where the centre lies. -/
  aspect : Aspect
  /-- The latitude of the centre. -/
  latitude : α
  /-- The sine of the authalic latitude of an oblique centre. -/
  sinCentre : α
  /-- The cosine of the authalic latitude of an oblique centre. -/
  cosCentre : α
  /-- The constants for the ellipsoid, unless it is a sphere or they have been released. -/
  spheroid? : Option (Spheroid α)

variable {α : Type} [Arith α]

/-- The authalic latitude of a geographic latitude. -/
def Spheroid.authalicLatitude (s : Spheroid α) (latitude : α) : α :=
  s.ellipsoid.authalicLatitude s.series s.poleIntegral latitude (Arith.sin latitude)
    (Arith.cos latitude)

/-- The geographic latitude of an authalic latitude. -/
def Spheroid.geographicLatitude (s : Spheroid α) (authalic : α) : α :=
  s.ellipsoid.geographicLatitude s.series s.poleIntegral authalic

/-- The constants that do not depend on where the centre lies, with the others as in a polar
aspect. -/
def Spheroid.polar (e : Ellipsoid α) : Spheroid α where
  ellipsoid := e
  poleIntegral := e.poleIntegral
  halfReciprocal := 0.5 / (1 - e.eccentricitySq)
  authalicRadius := 0
  stretch := 1
  eastFactor := 0
  northFactor := 0
  series := e.authalicCoefficients

/-- The radius of the sphere of the same area. -/
def Spheroid.radiusOfArea (s : Spheroid α) : α := Arith.sqrt (0.5 * s.poleIntegral)

namespace Projection

/-! ## Construction -/

/-- The projection of a sphere. -/
def ofSphere (aspect : Aspect) (latitude : α) : Projection α where
  aspect := aspect
  latitude := latitude
  sinCentre := if aspect = .oblique then Arith.sin latitude else 0
  cosCentre := if aspect = .oblique then Arith.cos latitude else 0
  spheroid? := none

/-- The projection of an ellipsoid that is no sphere.  The stretch of an oblique aspect is the
ratio of the radius of the parallel of the centre to that of its image on the sphere of the same
area. -/
def ofEllipsoid (aspect : Aspect) (latitude : α) (e : Ellipsoid α) : Projection α :=
  let s := Spheroid.polar e
  match aspect with
  | .northPolar | .southPolar => ⟨aspect, latitude, 0, 0, some s⟩
  | .equatorial =>
    let radius := s.radiusOfArea
    ⟨aspect, latitude, 0, 0, some
      { s with
        authalicRadius := radius
        stretch := 1 / radius
        -- The radius times this stretch is one, and the radius over it is the radius squared.
        eastFactor := 1
        northFactor := 0.5 * s.poleIntegral }⟩
  | .oblique =>
    let radius := s.radiusOfArea
    let sinLatitude := Arith.sin latitude
    let authalic := s.authalicLatitude latitude
    let cosCentre := Arith.cos authalic
    let stretch :=
      Arith.cos latitude /
        (Arith.sqrt (1 - e.eccentricitySq * sinLatitude * sinLatitude) * radius * cosCentre)
    ⟨aspect, latitude, Arith.sin authalic, cosCentre, some
      { s with
        authalicRadius := radius
        stretch := stretch
        eastFactor := radius * stretch
        northFactor := radius / stretch }⟩

/-- The projection of an ellipsoid centred at a latitude.  Only the shape of the ellipsoid
matters, and a squared eccentricity of zero makes it a sphere. -/
def centredAt (latitude : α) (e : Ellipsoid α) : Except (Fault α) (Projection α) := do
  let aspect ← Aspect.ofLatitude latitude
  return if e.eccentricitySq == 0 then ofSphere aspect latitude
    else ofEllipsoid aspect latitude e

/-! ## Life -/

/-- The record of a new projection. -/
def record (p : Projection α) : Record where
  level := .debug
  message := "LAEA: " ++ p.aspect.name ++ " aspect, " ++
    if p.spheroid?.isSome then "ellipsoidal" else "spherical"

/-- The projection of an ellipsoid centred at a latitude, with a log. -/
def create (latitude : α) (e : Ellipsoid α) : Attempt α (Projection α) := do
  let p ← Attempt.report (centredAt latitude e)
  Attempt.write p.record
  return p

omit [Arith α] in
/-- The projection without its constants for the ellipsoid.  Only where there were any does the
log say so. -/
def teardown (p : Projection α) : Logged (Projection α) :=
  match p.spheroid? with
  | none => ⟨p, []⟩
  | some _ =>
    ⟨{ p with spheroid? := none }, [⟨.debug, "LAEA: released authalic latitude coefficients"⟩]⟩

end Projection

end EqualArea
