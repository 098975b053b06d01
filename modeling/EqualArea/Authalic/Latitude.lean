import EqualArea.Authalic.Integral
import EqualArea.Authalic.Table

/-!
# Authalic latitude

The authalic latitude of a point of an ellipsoid is the latitude it takes on the sphere of the
same area when areas between parallels are kept.

* `Ellipsoid.authalicLatitude` — from the geographic latitude to the authalic one.
* `Ellipsoid.geographicLatitude` — and back.
* `Authalic.newtonStep`, `Authalic.refine` — the iteration the way back ends with on a flat
  ellipsoid.

**Design.**  Below a third flattening of `0.01` both ways are sums of a series.  Above it the way
forth is the closed form `sin ξ = q(φ) / q(90°)`, and the way back starts with the series and
refines its value by at most ten steps of Newton's method.  The iteration is a recursion on the
number of steps left, and it leaves a latitude alone that is at a pole, where the step is
singular and the series has no error.
-/

namespace EqualArea

variable {α : Type} [Arith α]

namespace Authalic

/-- The third flattening from which the series is no longer good enough. -/
def seriesLimit : α := 0.01

/-- The largest number of steps of the iteration. -/
def maxSteps : Nat := 10

/-- Newton's correction to a latitude `phi` whose authalic integral should be `q`, on an ellipsoid
with the given squared eccentricity. -/
def newtonStep (eccentricitySq q phi : α) : α :=
  let e := Arith.sqrt eccentricitySq
  let s := Arith.sin phi
  let c := Arith.cos phi
  let term := 1 - eccentricitySq * s * s
  term * term / (2 * c) * (q / (1 - eccentricitySq) - s / term - Arith.atanh (e * s) / e)

/-- The latitude after at most the given number of corrections.  The iteration ends at a pole,
before a correction that is not finite, and after one that is negligible. -/
def refine (eccentricitySq q : α) : Nat → α → α
  | 0, phi => phi
  | steps + 1, phi =>
    -- Next to a pole the divisor of the correction vanishes, and the series needs none there.
    if Arith.quarterTurn - Arith.abs phi < 1e-12 then phi
    else
      let correction := newtonStep eccentricitySq q phi
      if Arith.isFinite correction then
        if Arith.abs correction < 1e-15 then phi + correction
        else refine eccentricitySq q steps (phi + correction)
      else phi

end Authalic

namespace Ellipsoid

/-- Whether the series alone converts latitudes on the ellipsoid. -/
def usesSeries (e : Ellipsoid α) : Bool := Arith.abs e.thirdFlattening < Authalic.seriesLimit

/-- The coefficients of the series on the ellipsoid. -/
def authalicCoefficients (e : Ellipsoid α) : Authalic.Coefficients α :=
  Authalic.coefficients e.thirdFlattening

/-- The authalic latitude of a geographic latitude with the given sine and cosine. -/
def authalicLatitude (e : Ellipsoid α) (series : Authalic.Coefficients α) (poleIntegral : α)
    (latitude sin cos : α) : α :=
  if e.usesSeries then
    latitude + Series.sineSumOfTrig (2 * sin * cos) ((cos - sin) * (cos + sin)) series.forward
  else Arith.asin (Arith.clamp (-1) 1 (e.authalicIntegral sin / poleIntegral))

/-- The geographic latitude of an authalic latitude. -/
def geographicLatitude (e : Ellipsoid α) (series : Authalic.Coefficients α) (poleIntegral : α)
    (authalic : α) : α :=
  let start := authalic + Series.sineSum (2 * authalic) series.inverse
  if e.usesSeries then start
  else
    Authalic.refine e.eccentricitySq (Arith.sin authalic * poleIntegral) Authalic.maxSteps start

end Ellipsoid

end EqualArea
