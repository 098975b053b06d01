import EqualArea.Ellipsoid.Basic

/-!
# The authalic integral

The area of an ellipsoid of unit semimajor axis between the equator and a latitude is a multiple
of the authalic integral of that latitude.

* `Authalic.integral` — the integral, of the sine of the latitude and the eccentricity.
* `Ellipsoid.authalicIntegral`, `Ellipsoid.poleIntegral` — the integral on an ellipsoid, and its
  value at the pole.
-/

namespace EqualArea

variable {α : Type} [Arith α]

/-- The authalic integral `q(φ)` at the latitude with the given sine, for an ellipsoid of the
given eccentricity.  Where the eccentricity is so small that the quotient by it loses all digits,
the limit for the sphere stands in. -/
def Authalic.integral (sinLatitude eccentricity : α) : α :=
  let complement := 1 - eccentricity * eccentricity
  let c := eccentricity * sinLatitude
  if eccentricity < 1e-7 then 2 * sinLatitude
  else
    complement *
      (sinLatitude / (1 - c * c) - 0.5 / eccentricity * Arith.log ((1 - c) / (1 + c)))

namespace Ellipsoid

/-- The authalic integral on an ellipsoid. -/
def authalicIntegral (e : Ellipsoid α) (sinLatitude : α) : α :=
  Authalic.integral sinLatitude e.eccentricity

/-- The authalic integral at the pole. -/
def poleIntegral (e : Ellipsoid α) : α := e.authalicIntegral 1

end Ellipsoid

end EqualArea
