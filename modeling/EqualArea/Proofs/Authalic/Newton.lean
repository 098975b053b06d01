import EqualArea.Proofs.Area.Mapping

/-!
# The iteration for the geographic latitude

The way back from the authalic latitude ends with Newton's method for the latitude at which the
authalic integral has a given value.

* `Ellipsoid.Flattened.hasDerivAt_authalicIntegral_sin`, `Ellipsoid.Flattened.newtonStep_eq` — the
  integral changes with the area of the zone, and a correction divides by it.
* `Ellipsoid.Flattened.density_mul_cos_le`, `Ellipsoid.Flattened.density_mul_cos_pow_le` — how
  unevenly the area of a zone changes with the latitude.
* `Ellipsoid.Flattened.newtonStep_error` — a correction squares the distance from the solution, in
  units of the cosine of the latitude.
* `Ellipsoid.Flattened.refine_error` — where the iteration ends, after whatever number of steps and
  for whatever reason.

**Design.**  The slope of the integral vanishes at a pole, so near a pole only a start that is close
by the measure of the cosine can be refined.  The distance from the solution is measured in that
unit throughout, and then the bounds are the same for every ellipsoid: toward a pole the slope falls
no faster than the cosine and rises no faster than the cosine's third power falls, however flat the
ellipsoid.  The iteration ends early in two ways, at a pole or after a negligible correction, and
either way the distance is as small as the bound that ended it.
-/

namespace EqualArea

/-- Of two functions the one with the smaller slope changes less. -/
lemma sub_le_sub_of_slope_le {f g f' g' : ℝ → ℝ}
    (hf : ∀ x ∈ Set.Icc (0 : ℝ) 1, HasDerivAt f (f' x) x)
    (hg : ∀ x ∈ Set.Icc (0 : ℝ) 1, HasDerivAt g (g' x) x)
    (hslope : ∀ x ∈ Set.Icc (0 : ℝ) 1, f' x ≤ g' x) : f 1 - f 0 ≤ g 1 - g 0 := by
  have hderiv : ∀ x ∈ Set.Icc (0 : ℝ) 1, HasDerivAt (g - f) (g' x - f' x) x :=
    fun x hx => (hg x hx).sub (hf x hx)
  have hmono : MonotoneOn (g - f) (Set.Icc 0 1) := by
    refine monotoneOn_of_deriv_nonneg (convex_Icc 0 1)
      (fun x hx => (hderiv x hx).continuousAt.continuousWithinAt)
      (fun x hx => (hderiv x (interior_subset hx)).differentiableAt.differentiableWithinAt) ?_
    intro x hx
    rw [(hderiv x (interior_subset hx)).deriv, sub_nonneg]
    exact hslope x (interior_subset hx)
  have hle := hmono (Set.left_mem_Icc.mpr zero_le_one) (Set.right_mem_Icc.mpr zero_le_one)
    zero_le_one
  simp only [Pi.sub_apply] at hle
  linarith

lemma hasDerivAt_cube (k x : ℝ) :
    HasDerivAt (fun x => x + 3 / 2 * k * x ^ 2 + k ^ 2 * x ^ 3 + k ^ 3 / 4 * x ^ 4)
      ((1 + x * k) ^ 3) x := by
  refine ((((hasDerivAt_id x).fun_add ((hasDerivAt_pow 2 x).const_mul (3 / 2 * k))).fun_add
    ((hasDerivAt_pow 3 x).const_mul (k ^ 2))).fun_add
      ((hasDerivAt_pow 4 x).const_mul (k ^ 3 / 4))).congr_deriv ?_
  push_cast
  ring

lemma hasDerivAt_cube_div {k x : ℝ} (hterm : 1 - k + x * k ≠ 0) :
    HasDerivAt (fun x => x * (1 - k) * (2 * (1 - k) + x * k) / (2 * (1 - k + x * k) ^ 2))
      (((1 - k) / (1 - k + x * k)) ^ 3) x := by
  have hline : HasDerivAt (fun x => x * k) k x := by simpa using (hasDerivAt_id x).mul_const k
  have hnumerator := ((hasDerivAt_id x).mul_const (1 - k)).fun_mul (hline.const_add (2 * (1 - k)))
  have hdenominator := ((hline.const_add (1 - k)).fun_pow 2).const_mul 2
  refine (hnumerator.fun_div hdenominator (by positivity)).congr_deriv ?_
  simp only [id_eq, one_mul]
  push_cast
  field_simp
  ring

namespace Ellipsoid

variable {e : Ellipsoid ℝ}

/-! ## The slope of the integral -/

/-- The integral changes with the area of the zone. -/
theorem Flattened.hasDerivAt_authalicIntegral_sin (he : e.Flattened) (hecc : 1e-7 ≤ e.eccentricity)
    (phi : ℝ) :
    HasDerivAt (fun phi => e.authalicIntegral (Real.sin phi)) (2 * e.density phi) phi := by
  have hintegral := Authalic.hasDerivAt_integral hecc he.eccentricity_lt_one (Real.sin_mem_Icc phi)
  refine (hintegral.comp phi (Real.hasDerivAt_sin phi)).congr_deriv ?_
  rw [he.one_sub_sq_eq, he.eccentricity_mul_self, density]
  ring

/-- The integral with its logarithm written as in the iteration. -/
lemma Flattened.authalicIntegral_sin (he : e.Flattened) (hecc : 1e-7 ≤ e.eccentricity) (phi : ℝ) :
    e.authalicIntegral (Real.sin phi) = (1 - e.eccentricitySq) *
      (Real.sin phi / e.curvatureTerm phi +
        Real.artanh (e.eccentricity * Real.sin phi) / e.eccentricity) := by
  have hproduct := Authalic.abs_mul_lt_one he.eccentricity_pos.le he.eccentricity_lt_one
    (Real.sin_mem_Icc phi)
  have hartanh : Real.log ((1 - e.eccentricity * Real.sin phi) /
      (1 + e.eccentricity * Real.sin phi)) =
        -2 * Real.artanh (e.eccentricity * Real.sin phi) := by
    rw [Real.artanh_eq_half_log (abs_le.mp hproduct.le), ← inv_div, Real.log_inv]
    ring
  rw [authalicIntegral, Authalic.integral_of_le hecc, he.one_sub_sq_eq, hartanh,
    he.eccentricity_mul_self]
  ring

/-- A correction is what the integral lacks, divided by the slope. -/
theorem Flattened.newtonStep_eq (he : e.Flattened) (hecc : 1e-7 ≤ e.eccentricity) (q phi : ℝ) :
    Authalic.newtonStep e.eccentricitySq q phi =
      (q - e.authalicIntegral (Real.sin phi)) / (2 * e.density phi) := by
  have hecc0 := he.eccentricity_pos
  have hcomplement : 0 < 1 - e.eccentricitySq := sub_pos.mpr he.lt_one
  have hterm := he.curvatureTerm_pos phi
  have hcurvature : 1 - e.eccentricitySq * Real.sin phi * Real.sin phi = e.curvatureTerm phi := by
    change _ = 1 - Real.sin phi * Real.sin phi * e.eccentricitySq
    ring
  have hstep : Authalic.newtonStep e.eccentricitySq q phi =
      e.curvatureTerm phi * e.curvatureTerm phi / (2 * Real.cos phi) *
        (q / (1 - e.eccentricitySq) - Real.sin phi / e.curvatureTerm phi -
          Real.artanh (e.eccentricity * Real.sin phi) / e.eccentricity) := by
    rw [← hcurvature]
    rfl
  rw [hstep, he.authalicIntegral_sin hecc, density]
  by_cases hcos : Real.cos phi = 0
  · simp [hcos]
  · field_simp
    ring

lemma curvatureTerm_eq (e : Ellipsoid ℝ) (phi : ℝ) :
    e.curvatureTerm phi = 1 - e.eccentricitySq + e.eccentricitySq * Real.cos phi ^ 2 := by
  have hsq := Real.sin_sq_add_cos_sq phi
  change 1 - Real.sin phi * Real.sin phi * e.eccentricitySq = _
  linear_combination -e.eccentricitySq * hsq

lemma Flattened.le_curvatureTerm (he : e.Flattened) (phi : ℝ) :
    1 - e.eccentricitySq ≤ e.curvatureTerm phi := by
  rw [curvatureTerm_eq]
  linarith [mul_nonneg he.pos.le (sq_nonneg (Real.cos phi))]

/-- The slope is no smaller than near the equator. -/
lemma Flattened.le_density (he : e.Flattened) {phi : ℝ} (hcos : 0 ≤ Real.cos phi) :
    (1 - e.eccentricitySq) * Real.cos phi ≤ e.density phi := by
  have hterm := he.curvatureTerm_pos phi
  have hcomplement := sub_pos.mpr he.lt_one
  have hle : e.curvatureTerm phi ≤ 1 := by
    change 1 - Real.sin phi * Real.sin phi * e.eccentricitySq ≤ 1
    nlinarith [mul_nonneg (mul_self_nonneg (Real.sin phi)) he.pos.le]
  exact le_div_self (mul_nonneg hcomplement.le hcos) (by positivity) (pow_le_one₀ hterm.le hle)

lemma Flattened.density_pos (he : e.Flattened) {phi : ℝ} (hphi : |phi| < Real.pi / 2) :
    0 < e.density phi := by
  have hcos : 0 < Real.cos phi := Real.cos_pos_of_mem_Ioo (abs_lt.mp hphi)
  have hcomplement := sub_pos.mpr he.lt_one
  exact lt_of_lt_of_le (by positivity) (he.le_density hcos.le)

/-- The slope is no larger than near a pole. -/
lemma Flattened.abs_density_le (he : e.Flattened) (phi : ℝ) :
    (1 - e.eccentricitySq) * |e.density phi| ≤ |Real.cos phi| := by
  have hge := he.le_curvatureTerm phi
  have hsq := pow_pos (he.curvatureTerm_pos phi) 2
  have hcomplement := sub_pos.mpr he.lt_one
  rw [density, abs_div, abs_mul, abs_of_pos hcomplement, abs_of_pos hsq, ← mul_div_assoc,
    div_le_iff₀ hsq]
  calc (1 - e.eccentricitySq) * ((1 - e.eccentricitySq) * |Real.cos phi|)
      = |Real.cos phi| * (1 - e.eccentricitySq) ^ 2 := by ring
    _ ≤ |Real.cos phi| * e.curvatureTerm phi ^ 2 := by gcongr

/-! ## How evenly the slope changes -/

section

variable {s t : ℝ} (ht : 0 < Real.cos t) (hst : Real.cos t ≤ Real.cos s)

include ht hst

/-- Toward a pole the slope falls no faster than the cosine. -/
lemma Flattened.density_mul_cos_le (he : e.Flattened) :
    e.density s * Real.cos t ≤ e.density t * Real.cos s := by
  have hcomplement := sub_pos.mpr he.lt_one
  have hterm := he.curvatureTerm_pos t
  have hcos := ht.trans_le hst
  have hle : e.curvatureTerm t ≤ e.curvatureTerm s := by
    rw [curvatureTerm_eq, curvatureTerm_eq]
    have hpos := he.pos
    gcongr
  calc e.density s * Real.cos t
      = (1 - e.eccentricitySq) * Real.cos s * Real.cos t / e.curvatureTerm s ^ 2 := by
        rw [density]
        ring
    _ ≤ (1 - e.eccentricitySq) * Real.cos s * Real.cos t / e.curvatureTerm t ^ 2 := by gcongr
    _ = e.density t * Real.cos s := by
        rw [density]
        ring

/-- It rises no faster than the third power of the cosine falls. -/
lemma Flattened.density_mul_cos_pow_le (he : e.Flattened) :
    e.density t * Real.cos t ^ 3 ≤ e.density s * Real.cos s ^ 3 := by
  have hcomplement := sub_pos.mpr he.lt_one
  have hterm := he.curvatureTerm_pos t
  have hsq : Real.cos t ^ 2 ≤ Real.cos s ^ 2 := by gcongr
  have hle : Real.cos t ^ 2 / e.curvatureTerm t ≤ Real.cos s ^ 2 / e.curvatureTerm s := by
    rw [div_le_div_iff₀ hterm (he.curvatureTerm_pos s), curvatureTerm_eq, curvatureTerm_eq]
    nlinarith
  calc e.density t * Real.cos t ^ 3
      = (1 - e.eccentricitySq) * (Real.cos t ^ 2 / e.curvatureTerm t) ^ 2 := by
        rw [density]
        ring
    _ ≤ (1 - e.eccentricitySq) * (Real.cos s ^ 2 / e.curvatureTerm s) ^ 2 := by gcongr
    _ = e.density s * Real.cos s ^ 3 := by
        rw [density]
        ring

end

/-! ## A correction -/

section

variable {root phi : ℝ}

/-- The cosine of a latitude is at most the distance from the pole. -/
lemma cos_le_pi_div_two_sub_abs (hphi : |phi| < Real.pi / 2) :
    Real.cos phi ≤ Real.pi / 2 - |phi| := by
  rw [← Real.cos_abs, ← Real.sin_pi_div_two_sub]
  exact Real.sin_le (by linarith)

/-- What is closer to a latitude than its cosine is between the poles. -/
lemma abs_lt_of_near (hroot : root ∈ Set.Ioo (-(Real.pi / 2)) (Real.pi / 2))
    (hnear : |phi - root| < Real.cos root) : |phi| < Real.pi / 2 := by
  have hcos := cos_le_pi_div_two_sub_abs (abs_lt.mpr hroot)
  linarith [abs_sub_abs_le_abs_sub phi root]

/-- Between two latitudes the cosine is no smaller than at one of them. -/
lemma min_cos_le (hroot : |root| < Real.pi / 2) (hphi : |phi| < Real.pi / 2) {x : ℝ}
    (hx : x ∈ Set.Icc (0 : ℝ) 1) :
    min (Real.cos phi) (Real.cos root) ≤ Real.cos (phi + x * (root - phi)) := by
  refine strictConcaveOn_cos_Icc.concaveOn.min_le_of_mem_segment (abs_le.mp hphi.le)
    (abs_le.mp hroot.le) ?_
  rw [segment_eq_image']
  exact ⟨x, hx, rfl⟩

variable {k x : ℝ}

/-- On the way to the solution the cosine changes at most as fast as the latitude, so by a multiple
of its value there. -/
lemma cos_on_way (hnear : |phi - root| = k * Real.cos root) (hx : x ∈ Set.Icc (0 : ℝ) 1) :
    |Real.cos (phi + x * (root - phi)) - Real.cos phi| ≤ x * k * Real.cos root ∧
      (1 - k + x * k) * Real.cos root ≤ Real.cos (phi + x * (root - phi)) := by
  obtain ⟨hx0, hx1⟩ := hx
  set t := phi + x * (root - phi) with ht
  constructor
  · refine (Real.abs_cos_sub_cos_le t phi).trans_eq ?_
    rw [ht, add_sub_cancel_left, abs_mul, abs_of_nonneg hx0, abs_sub_comm, hnear]
    ring
  · have hback : |Real.cos t - Real.cos root| ≤ (1 - x) * k * Real.cos root := by
      refine (Real.abs_cos_sub_cos_le t root).trans_eq ?_
      have hgap : t - root = (1 - x) * (phi - root) := by
        rw [ht]
        ring
      rw [hgap, abs_mul, abs_of_nonneg (sub_nonneg.mpr hx1), hnear]
      ring
    linarith [(abs_le.mp hback).1]

section

variable {a b c d r : ℝ} (ha : 0 ≤ a) (hc : 0 < c)

include ha hc

/-- From `d / c ≤ b / a` and a bound for `d / c` from below, the same bound for `b / a`. -/
lemma mul_le_of_quotient (hquotient : a * d ≤ b * c) (hshare : r * c ≤ d) : a * r ≤ b := by
  refine le_of_mul_le_mul_right (le_trans ?_ hquotient) hc
  rw [mul_assoc]
  gcongr

/-- From `b / a ≤ d / c` and a bound for `d / c` from above, the same bound for `b / a`. -/
lemma le_mul_of_quotient (hquotient : b * c ≤ a * d) (hmultiple : d ≤ r * c) : b ≤ a * r := by
  refine le_of_mul_le_mul_right (hquotient.trans ?_) hc
  rw [mul_assoc]
  gcongr

end

namespace Flattened

/-- How much the slope changes on the way to the solution, from a latitude whose distance is `k`
times the cosine of the solution. -/
lemma density_mem (he : e.Flattened) (hroot : root ∈ Set.Ioo (-(Real.pi / 2)) (Real.pi / 2))
    (hk : k ∈ Set.Icc (0 : ℝ) (2 / 3)) (hnear : |phi - root| = k * Real.cos root)
    (hx : x ∈ Set.Icc (0 : ℝ) 1) :
    e.density phi * ((1 - k) / (1 - k + x * k)) ^ 3 ≤ e.density (phi + x * (root - phi)) ∧
      e.density (phi + x * (root - phi)) ≤ e.density phi * (1 + x * k) ^ 3 := by
  obtain ⟨hk0, hk1⟩ := hk
  have hpos := Real.cos_pos_of_mem_Ioo hroot
  have hinside : |phi| < Real.pi / 2 := abs_lt_of_near hroot (by rw [hnear]; nlinarith)
  have hmin := min_cos_le (abs_lt.mpr hroot) hinside hx
  obtain ⟨hforth, hcost⟩ := cos_on_way hnear hx
  have hcosphi : (1 - k) * Real.cos root ≤ Real.cos phi := by
    have hstart := (cos_on_way hnear (Set.left_mem_Icc.mpr zero_le_one)).2
    simpa using hstart
  set t := phi + x * (root - phi)
  obtain ⟨hlow, hhigh⟩ := abs_le.mp hforth
  have hxk : 0 ≤ x * k := mul_nonneg hx.1 hk0
  have hterm : 0 < 1 - k + x * k := by linarith
  have hphi : 0 < Real.cos phi := Real.cos_pos_of_mem_Ioo (abs_lt.mp hinside)
  have ht : 0 < Real.cos t := lt_of_lt_of_le (by positivity) hcost
  have hdensity := he.density_pos hinside
  have hratio : (1 - k) / (1 - k + x * k) ∈ Set.Icc (0 : ℝ) 1 :=
    ⟨div_nonneg (by linarith) hterm.le, (div_le_one hterm).mpr (by linarith)⟩
  have hshrink (near far : ℝ) (hle : near ≤ far + x * k * Real.cos root)
      (hfar : (1 - k) * Real.cos root ≤ far) : (1 - k) / (1 - k + x * k) * near ≤ far := by
    rw [div_mul_eq_mul_div, div_le_iff₀ hterm]
    nlinarith
  -- The slope is compared with that at `phi` by the cosine in one direction and by its third power
  -- in the other, and which is which depends on where the cosine is larger.
  rcases le_total (Real.cos phi) (Real.cos t) with hle | hle
  · refine ⟨mul_le_of_quotient hdensity.le (pow_pos ht 3) (he.density_mul_cos_pow_le hphi hle) ?_,
      le_mul_of_quotient hdensity.le hphi (he.density_mul_cos_le hphi hle) ?_⟩
    · rw [← mul_pow]
      exact pow_le_pow_left₀ (mul_nonneg hratio.1 ht.le) (hshrink _ _ (by linarith) hcosphi) 3
    · have hbernoulli : 1 + 3 * (x * k) ≤ (1 + x * k) ^ 3 := by
        nlinarith [mul_nonneg hxk (mul_nonneg hxk hxk), mul_nonneg hxk hxk]
      have hthird : Real.cos root ≤ 3 * Real.cos phi := by nlinarith
      calc Real.cos t ≤ Real.cos phi + x * k * Real.cos root := by linarith
        _ ≤ Real.cos phi + x * k * (3 * Real.cos phi) := by gcongr
        _ = (1 + 3 * (x * k)) * Real.cos phi := by ring
        _ ≤ (1 + x * k) ^ 3 * Real.cos phi := by gcongr
  · refine ⟨mul_le_of_quotient hdensity.le hphi (he.density_mul_cos_le ht hle) ?_,
      le_mul_of_quotient hdensity.le (pow_pos ht 3) (he.density_mul_cos_pow_le ht hle) ?_⟩
    · calc ((1 - k) / (1 - k + x * k)) ^ 3 * Real.cos phi
          ≤ (1 - k) / (1 - k + x * k) * Real.cos phi := by
            gcongr
            exact pow_le_of_le_one hratio.1 hratio.2 (by norm_num)
        _ ≤ Real.cos t := hshrink _ _ (by linarith) (le_trans (by nlinarith) hcost)
    · have hgrow : Real.cos phi ≤ (1 + x * k) * Real.cos t := by
        rcases min_le_iff.mp hmin with hphit | hroott <;> nlinarith
      rw [← mul_pow]
      gcongr

/-- How much the integral changes on the way to the solution, compared with its slope. -/
lemma integral_sub_mem (he : e.Flattened) (hecc : 1e-7 ≤ e.eccentricity)
    (hroot : root ∈ Set.Ioo (-(Real.pi / 2)) (Real.pi / 2)) (hk : k ∈ Set.Icc (0 : ℝ) (2 / 3))
    (hnear : |phi - root| = k * Real.cos root) (hne : root ≠ phi) :
    (e.authalicIntegral (Real.sin root) - e.authalicIntegral (Real.sin phi)) /
        (2 * e.density phi * (root - phi)) ∈
      Set.Icc (1 - 3 / 2 * k + k ^ 2 / 2) (1 + 3 / 2 * k + k ^ 2 + k ^ 3 / 4) := by
  obtain ⟨hk0, hk1⟩ := id hk
  have hpos := Real.cos_pos_of_mem_Ioo hroot
  have hinside : |phi| < Real.pi / 2 := abs_lt_of_near hroot (by rw [hnear]; nlinarith)
  have hdensity := he.density_pos hinside
  have hgap : root - phi ≠ 0 := sub_ne_zero.mpr hne
  -- Along the way to the solution the slope is between two cubes, and their integrals bound the
  -- difference.
  set g : ℝ → ℝ := fun x => e.authalicIntegral (Real.sin (phi + x * (root - phi))) /
    (2 * e.density phi * (root - phi)) with hg
  have hderiv : ∀ x ∈ Set.Icc (0 : ℝ) 1,
      HasDerivAt g (e.density (phi + x * (root - phi)) / e.density phi) x := by
    intro x _
    have hpath : HasDerivAt (fun x => phi + x * (root - phi)) (root - phi) x := by
      simpa using ((hasDerivAt_id x).mul_const (root - phi)).const_add phi
    refine (((he.hasDerivAt_authalicIntegral_sin hecc _).comp x hpath).div_const
      (2 * e.density phi * (root - phi))).congr_deriv ?_
    field_simp
  have hends : g 1 - g 0 = (e.authalicIntegral (Real.sin root) -
      e.authalicIntegral (Real.sin phi)) / (2 * e.density phi * (root - phi)) := by
    simp only [hg]
    rw [zero_mul, add_zero, one_mul, add_sub_cancel, sub_div]
  rw [← hends]
  constructor
  · have hlow : ∀ x ∈ Set.Icc (0 : ℝ) 1, HasDerivAt
        (fun x => x * (1 - k) * (2 * (1 - k) + x * k) / (2 * (1 - k + x * k) ^ 2))
        (((1 - k) / (1 - k + x * k)) ^ 3) x :=
      fun x hx => hasDerivAt_cube_div (ne_of_gt (by nlinarith [mul_nonneg hx.1 hk0]))
    have hle := sub_le_sub_of_slope_le hlow hderiv fun x hx => by
      rw [le_div_iff₀' hdensity]
      exact (he.density_mem hroot hk hnear hx).1
    refine le_trans (le_of_eq ?_) hle
    ring
  · have hhigh : ∀ x ∈ Set.Icc (0 : ℝ) 1, HasDerivAt
        (fun x => x + 3 / 2 * k * x ^ 2 + k ^ 2 * x ^ 3 + k ^ 3 / 4 * x ^ 4)
        ((1 + x * k) ^ 3) x := fun x _ => hasDerivAt_cube k x
    have hle := sub_le_sub_of_slope_le hderiv hhigh fun x hx => by
      rw [div_le_iff₀' hdensity]
      exact (he.density_mem hroot hk hnear hx).2
    refine hle.trans (le_of_eq ?_)
    ring

/-- A correction squares the distance from the solution, measured by the cosine of the solution. -/
theorem newtonStep_error (he : e.Flattened) (hecc : 1e-7 ≤ e.eccentricity)
    (hroot : root ∈ Set.Ioo (-(Real.pi / 2)) (Real.pi / 2))
    (hnear : |phi - root| ≤ 0.47 * Real.cos root) :
    |phi + Authalic.newtonStep e.eccentricitySq (e.authalicIntegral (Real.sin root)) phi - root| *
      Real.cos root ≤ 2.03 * |phi - root| ^ 2 := by
  have hpos := Real.cos_pos_of_mem_Ioo hroot
  rw [he.newtonStep_eq hecc]
  rcases eq_or_ne root phi with rfl | hne
  · simp
  -- The distance from the solution is measured in multiples `k` of its cosine: by how much the
  -- slope changes on the way depends on `k` alone.
  set k := |phi - root| / Real.cos root with hkdef
  have hk : |phi - root| = k * Real.cos root := (div_mul_cancel₀ _ hpos.ne').symm
  have hk0 : 0 ≤ k := div_nonneg (abs_nonneg _) hpos.le
  have hk1 : k ≤ 0.47 := (div_le_iff₀ hpos).mpr hnear
  have hinside : |phi| < Real.pi / 2 := abs_lt_of_near hroot (by rw [hk]; nlinarith)
  have hdensity := he.density_pos hinside
  obtain ⟨hlow, hhigh⟩ := he.integral_sub_mem hecc hroot ⟨hk0, by linarith⟩ hk hne
  set share := (e.authalicIntegral (Real.sin root) - e.authalicIntegral (Real.sin phi)) /
    (2 * e.density phi * (root - phi)) with hshare
  have herror : phi + (e.authalicIntegral (Real.sin root) - e.authalicIntegral (Real.sin phi)) /
      (2 * e.density phi) - root = (root - phi) * (share - 1) := by
    have hgap : root - phi ≠ 0 := sub_ne_zero.mpr hne
    rw [hshare]
    field_simp
    ring
  have hclose : |share - 1| ≤ 2.03 * k := by
    rw [abs_le]
    constructor <;> nlinarith [mul_nonneg hk0 (sub_nonneg.mpr hk1), pow_nonneg hk0 3,
      mul_nonneg (mul_nonneg hk0 hk0) (sub_nonneg.mpr hk1)]
  rw [herror, abs_mul, abs_sub_comm root phi]
  calc |phi - root| * |share - 1| * Real.cos root
      ≤ |phi - root| * (2.03 * k) * Real.cos root := by gcongr
    _ = 2.03 * |phi - root| * (k * Real.cos root) := by ring
    _ = 2.03 * |phi - root| ^ 2 := by rw [← hk]; ring

/-! ## The iteration -/

/-- Where the iteration ends at a pole, the solution is as close to the pole. -/
lemma abs_sub_le_of_pole (hroot : root ∈ Set.Ioo (-(Real.pi / 2)) (Real.pi / 2))
    (hnear : |phi - root| ≤ 0.47 * Real.cos root) (hpole : Real.pi / 2 - |phi| < 1e-12) :
    |phi - root| ≤ 1e-12 := by
  have hpos := Real.cos_pos_of_mem_Ioo hroot
  have hinside : |phi| < Real.pi / 2 := abs_lt_of_near hroot (by linarith)
  have hcosphi : Real.cos phi ≤ Real.pi / 2 - |phi| := cos_le_pi_div_two_sub_abs hinside
  have hcos := (le_abs_self _).trans (Real.abs_cos_sub_cos_le root phi)
  rw [abs_sub_comm] at hcos
  linarith

/-- Wherever and for whatever reason the iteration ends, it has come no farther from the solution,
and it is either as close as the bounds that end it or as close as that many corrections bring
it. -/
theorem refine_error (he : e.Flattened) (hecc : 1e-7 ≤ e.eccentricity)
    (hroot : root ∈ Set.Ioo (-(Real.pi / 2)) (Real.pi / 2)) {d : ℝ} (hd0 : 0 ≤ d)
    (hd : d ≤ 0.9541) (steps : ℕ) (hnear : 2.03 * |phi - root| ≤ d * Real.cos root) :
    2.03 * |Authalic.refine e.eccentricitySq (e.authalicIntegral (Real.sin root)) steps phi -
        root| ≤ d * Real.cos root ∧
      |Authalic.refine e.eccentricitySq (e.authalicIntegral (Real.sin root)) steps phi - root| ≤
        max 1e-12 (d ^ 2 ^ steps) := by
  have hcos := Real.cos_pos_of_mem_Ioo hroot
  -- One correction turns the bound `d` for the error into its square.
  induction steps generalizing phi d with
  | zero =>
    refine ⟨hnear, le_max_of_le_right ?_⟩
    rw [pow_zero, pow_one]
    change |phi - root| ≤ d
    nlinarith [Real.cos_le_one root, abs_nonneg (phi - root)]
  | succ steps ih =>
    have hclose : |phi - root| ≤ 0.47 * Real.cos root := by nlinarith
    simp only [Authalic.refine, Exact.abs_eq, Exact.isFinite_eq, if_true, Exact.quarterTurn_eq]
    set next := phi + Authalic.newtonStep e.eccentricitySq
      (e.authalicIntegral (Real.sin root)) phi with hnext
    have hsquared : |next - root| * Real.cos root ≤ 2.03 * |phi - root| ^ 2 :=
      he.newtonStep_error hecc hroot hclose
    have hshrink : |next - root| ≤ d * |phi - root| := by
      refine le_of_mul_le_mul_right (hsquared.trans ?_) hcos
      calc 2.03 * |phi - root| ^ 2 = 2.03 * |phi - root| * |phi - root| := by ring
        _ ≤ d * Real.cos root * |phi - root| := by gcongr
        _ = d * |phi - root| * Real.cos root := by ring
    have hnextNear : 2.03 * |next - root| ≤ d ^ 2 * Real.cos root := by
      calc 2.03 * |next - root| ≤ 2.03 * (d * |phi - root|) := by gcongr
        _ = d * (2.03 * |phi - root|) := by ring
        _ ≤ d * (d * Real.cos root) := by gcongr
        _ = d ^ 2 * Real.cos root := by ring
    have hcloser : d ^ 2 * Real.cos root ≤ d * Real.cos root := by
      gcongr
      nlinarith
    -- The iteration ends next to a pole, or with a negligible correction, or it goes on.
    split_ifs with hpole hnegligible
    · exact ⟨hnear, le_max_of_le_left (abs_sub_le_of_pole hroot hclose (by simpa using hpole))⟩
    · refine ⟨hnextNear.trans hcloser, le_max_of_le_left ?_⟩
      have hsmall : |next - phi| < 1e-15 := by
        rw [hnext, add_sub_cancel_left]
        simpa using hnegligible
      have htriangle := abs_sub_le phi next root
      rw [abs_sub_comm phi next] at htriangle
      have hcontract : |next - root| ≤ 0.9541 * |phi - root| := hshrink.trans (by gcongr)
      linarith
    · obtain ⟨hstay, hend⟩ := ih (sq_nonneg d) (by nlinarith) hnextNear
      refine ⟨hstay.trans hcloser, hend.trans_eq ?_⟩
      rw [← pow_mul, ← pow_succ']

end Flattened

end

end Ellipsoid

end EqualArea
