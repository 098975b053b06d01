import EqualArea.Authalic.Integral
import EqualArea.Proofs.Exact.Arith

/-!
# The authalic integral over the reals

The integral is odd and strictly increasing in the sine of the latitude, so it is positive at the
pole and its quotient by the value there is the sine of an angle.

* `Authalic.integral_neg`, `Authalic.integral_strictMonoOn` — oddness and monotonicity.
* `Authalic.hasDerivAt_integral` — the derivative, `2 (1 - e²) / (1 - e² s²)²`.
* `Ellipsoid.Flattened` — the ellipsoids that are no spheres.
* `Ellipsoid.poleIntegral_pos`, `Ellipsoid.abs_authalicIntegral_lt` — the integral on them.
-/

namespace EqualArea

namespace Authalic

/-- Below this eccentricity the limit for the sphere stands in. -/
lemma integral_of_lt {e : ℝ} (he : e < 1e-7) (s : ℝ) : integral s e = 2 * s := if_pos he

lemma integral_of_le {e : ℝ} (he : 1e-7 ≤ e) (s : ℝ) :
    integral s e = (1 - e * e) * (s / (1 - e * s * (e * s)) -
      0.5 / e * Real.log ((1 - e * s) / (1 + e * s))) := if_neg (not_lt.mpr he)

/-- The logarithm changes its sign with the sine, as the quotient turns over. -/
theorem integral_neg (s e : ℝ) : integral (-s) e = -integral s e := by
  rcases lt_or_ge e 1e-7 with he | he
  · rw [integral_of_lt he, integral_of_lt he]
    ring
  · have hlog : Real.log ((1 - e * -s) / (1 + e * -s)) =
        -Real.log ((1 - e * s) / (1 + e * s)) := by
      rw [← Real.log_inv, inv_div]
      congr 1
      ring
    rw [integral_of_le he, integral_of_le he, hlog]
    ring

lemma integral_zero (e : ℝ) : integral 0 e = 0 := by
  have hodd := integral_neg 0 e
  rw [neg_zero] at hodd
  linarith

/-- A sine times an eccentricity below one. -/
lemma abs_mul_lt_one {e s : ℝ} (he0 : 0 ≤ e) (he1 : e < 1) (hs : s ∈ Set.Icc (-1 : ℝ) 1) :
    |e * s| < 1 := by
  rw [abs_mul, abs_of_nonneg he0]
  have hs' : |s| ≤ 1 := abs_le.mpr hs
  nlinarith [abs_nonneg s]

lemma one_sub_sq_pos {e s : ℝ} (he0 : 0 ≤ e) (he1 : e < 1) (hs : s ∈ Set.Icc (-1 : ℝ) 1) :
    0 < 1 - e * s * (e * s) := by
  have h := abs_lt.mp (abs_mul_lt_one he0 he1 hs)
  nlinarith [h.1, h.2]

lemma one_sub_mul_pos {eccentricitySq s : ℝ} (h0 : 0 ≤ eccentricitySq) (h1 : eccentricitySq < 1)
    (hs : s ∈ Set.Icc (-1 : ℝ) 1) : 0 < 1 - eccentricitySq * s * s := by
  nlinarith [mul_self_nonneg s, abs_le_one_iff_mul_self_le_one.mp (abs_le.mpr hs)]

/-- The derivative of the rational part of the integral. -/
lemma hasDerivAt_rational {e s : ℝ} (h : 1 - e * s * (e * s) ≠ 0) :
    HasDerivAt (fun s => s / (1 - e * s * (e * s)))
      ((1 + e * s * (e * s)) / (1 - e * s * (e * s)) ^ 2) s := by
  have hes : HasDerivAt (fun s => e * s) e s := by simpa using (hasDerivAt_id s).const_mul e
  have hdenominator : HasDerivAt (fun s => 1 - e * s * (e * s)) (-(e * (e * s) + e * s * e)) s :=
    (hes.mul hes).const_sub 1
  refine ((hasDerivAt_id s).div hdenominator h).congr_deriv ?_
  simp only [id_eq]
  congr 1
  ring

/-- The derivative of the logarithm in the integral. -/
lemma hasDerivAt_logarithm {e s : ℝ} (hes : |e * s| < 1) :
    HasDerivAt (fun s => Real.log ((1 - e * s) / (1 + e * s)))
      (-(2 * e) / (1 - e * s * (e * s))) s := by
  have hlow : 0 < 1 + e * s := by linarith [(abs_lt.mp hes).1]
  have hhigh : 0 < 1 - e * s := by linarith [(abs_lt.mp hes).2]
  have hfactor : 1 - e * s * (e * s) = (1 - e * s) * (1 + e * s) := by ring
  have hmul : HasDerivAt (fun s => e * s) e s := by simpa using (hasDerivAt_id s).const_mul e
  have hquotient : HasDerivAt (fun s => (1 - e * s) / (1 + e * s))
      ((-e * (1 + e * s) - (1 - e * s) * e) / (1 + e * s) ^ 2) s :=
    (hmul.const_sub 1).div (hmul.const_add 1) hlow.ne'
  refine (hquotient.log (div_pos hhigh hlow).ne').congr_deriv ?_
  rw [hfactor]
  field_simp
  ring

/-- The integrand, in terms of the sine of the latitude. -/
theorem hasDerivAt_integral {e s : ℝ} (he : 1e-7 ≤ e) (he1 : e < 1)
    (hs : s ∈ Set.Icc (-1 : ℝ) 1) :
    HasDerivAt (fun s => integral s e) (2 * (1 - e * e) / (1 - e * s * (e * s)) ^ 2) s := by
  have he0 : 0 < e := lt_of_lt_of_le (by norm_num) he
  have hpos := one_sub_sq_pos he0.le he1 hs
  have hfun : (fun s => integral s e) = fun s => (1 - e * e) * (s / (1 - e * s * (e * s)) -
      0.5 / e * Real.log ((1 - e * s) / (1 + e * s))) := funext (integral_of_le he)
  rw [hfun]
  have hlogarithm := (hasDerivAt_logarithm (abs_mul_lt_one he0.le he1 hs)).const_mul (0.5 / e)
  refine (((hasDerivAt_rational hpos.ne').sub hlogarithm).const_mul (1 - e * e)).congr_deriv ?_
  field_simp
  ring

/-- The integral increases with the latitude. -/
theorem integral_strictMonoOn {e : ℝ} (he1 : e < 1) :
    StrictMonoOn (fun s => integral s e) (Set.Icc (-1) 1) := by
  rcases lt_or_ge e 1e-7 with he | he
  · intro s _ t _ hst
    simp only [integral_of_lt he]
    linarith
  · have he0 : 0 < e := lt_of_lt_of_le (by norm_num) he
    apply strictMonoOn_of_deriv_pos (convex_Icc _ _)
    · intro s hs
      exact (hasDerivAt_integral he he1 hs).continuousAt.continuousWithinAt
    · intro s hs
      have hs' : s ∈ Set.Icc (-1 : ℝ) 1 := interior_subset hs
      have hcomplement : 0 < 1 - e * e := by nlinarith
      have hpos := one_sub_sq_pos he0.le he1 hs'
      rw [(hasDerivAt_integral he he1 hs').deriv]
      positivity

end Authalic

namespace Ellipsoid

/-- An ellipsoid of revolution with a squared eccentricity strictly between zero and one. -/
structure Flattened (e : Ellipsoid ℝ) : Prop where
  /-- The ellipsoid is no sphere. -/
  pos : 0 < e.eccentricitySq
  /-- The ellipsoid is no disc. -/
  lt_one : e.eccentricitySq < 1

variable {e : Ellipsoid ℝ}

lemma eccentricity_nonneg (e : Ellipsoid ℝ) : 0 ≤ e.eccentricity := Real.sqrt_nonneg _

lemma Flattened.eccentricity_pos (h : e.Flattened) : 0 < e.eccentricity := Real.sqrt_pos.mpr h.pos

lemma Flattened.eccentricity_lt_one (h : e.Flattened) : e.eccentricity < 1 := by
  have hlt := Real.sqrt_lt_sqrt h.pos.le h.lt_one
  rwa [Real.sqrt_one] at hlt

lemma Flattened.eccentricity_mul_self (h : e.Flattened) :
    e.eccentricity * e.eccentricity = e.eccentricitySq := Real.mul_self_sqrt h.pos.le

/-- The flattening is that of an ellipsoid with two positive axes, or of one turned inside out. -/
lemma Flattened.two_sub_flattening_pos (h : e.Flattened) : 0 < 2 - e.flattening := by
  have hpos : 0 < e.flattening * (2 - e.flattening) := h.pos
  by_contra hle
  nlinarith

lemma flattened_half : (⟨1, 1 / 2⟩ : Ellipsoid ℝ).Flattened := by
  constructor <;> norm_num [eccentricitySq]

lemma authalicIntegral_neg (e : Ellipsoid ℝ) (s : ℝ) :
    e.authalicIntegral (-s) = -e.authalicIntegral s := Authalic.integral_neg s e.eccentricity

lemma authalicIntegral_zero (e : Ellipsoid ℝ) : e.authalicIntegral 0 = 0 :=
  Authalic.integral_zero e.eccentricity

lemma Flattened.authalicIntegral_strictMonoOn (h : e.Flattened) :
    StrictMonoOn e.authalicIntegral (Set.Icc (-1) 1) :=
  Authalic.integral_strictMonoOn h.eccentricity_lt_one

theorem Flattened.poleIntegral_pos (h : e.Flattened) : 0 < e.poleIntegral := by
  have hlt := h.authalicIntegral_strictMonoOn (Set.mem_Icc.mpr ⟨by norm_num, by norm_num⟩)
    (Set.mem_Icc.mpr ⟨by norm_num, by norm_num⟩) (zero_lt_one (α := ℝ))
  rwa [authalicIntegral_zero] at hlt

/-- The logarithm of the integral is never positive. -/
lemma Flattened.one_le_poleIntegral (h : e.Flattened) : 1 ≤ e.poleIntegral := by
  change 1 ≤ Authalic.integral 1 e.eccentricity
  rcases lt_or_ge e.eccentricity 1e-7 with he | he
  · rw [Authalic.integral_of_lt he]
    norm_num
  · have hpos := h.eccentricity_pos
    have hlt := h.eccentricity_lt_one
    have hcomplement : 0 < 1 - e.eccentricity * e.eccentricity := by nlinarith
    have hlog : Real.log ((1 - e.eccentricity * 1) / (1 + e.eccentricity * 1)) ≤ 0 := by
      apply Real.log_nonpos
      · exact div_nonneg (by linarith) (by linarith)
      · rw [div_le_one (by linarith)]
        linarith
    have hproduct : 0.5 / e.eccentricity *
        Real.log ((1 - e.eccentricity * 1) / (1 + e.eccentricity * 1)) ≤ 0 :=
      mul_nonpos_of_nonneg_of_nonpos (by positivity) hlog
    rw [Authalic.integral_of_le he]
    rw [mul_one] at hproduct ⊢
    rw [mul_sub, mul_one_div_cancel hcomplement.ne']
    linarith [mul_nonpos_of_nonneg_of_nonpos hcomplement.le hproduct]

/-- Away from the poles the integral stays below its value there. -/
theorem Flattened.abs_authalicIntegral_lt (h : e.Flattened) {s : ℝ} (hs : |s| < 1) :
    |e.authalicIntegral s| < e.poleIntegral := by
  obtain ⟨hlow, hhigh⟩ := abs_lt.mp hs
  have hmono := h.authalicIntegral_strictMonoOn
  have hone : (1 : ℝ) ∈ Set.Icc (-1 : ℝ) 1 := ⟨by norm_num, le_rfl⟩
  have hneg : (-1 : ℝ) ∈ Set.Icc (-1 : ℝ) 1 := ⟨le_rfl, by norm_num⟩
  have hmem : s ∈ Set.Icc (-1 : ℝ) 1 := ⟨hlow.le, hhigh.le⟩
  rw [abs_lt]
  constructor
  · have hbelow := hmono hneg hmem hlow
    rwa [authalicIntegral_neg] at hbelow
  · exact hmono hmem hone hhigh

end Ellipsoid

end EqualArea
