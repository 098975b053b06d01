import EqualArea.Authalic.Latitude
import EqualArea.Proofs.Authalic.Integral
import EqualArea.Proofs.Authalic.Series

/-!
# The authalic latitude over the reals

Both ways of computing the authalic latitude keep to the side of the poles the geographic latitude
is on.

* `Ellipsoid.authalic` — the authalic latitude, with the ellipsoid's own constants.
* `Ellipsoid.authalic_of_series`, `Ellipsoid.authalic_of_closed` — the two ways of computing it.
* `Ellipsoid.Flattened.cos_authalic_ne_zero`, `Ellipsoid.Flattened.cos_authalic_pos`,
  `Ellipsoid.Flattened.authalic_mem_Ioo` — it is at a pole only at a pole.
-/

namespace EqualArea

namespace Ellipsoid

open Series

variable {e : Ellipsoid ℝ} {phi : ℝ}

/-- The authalic latitude of a geographic latitude on an ellipsoid. -/
noncomputable def authalic (e : Ellipsoid ℝ) (phi : ℝ) : ℝ :=
  e.authalicLatitude e.authalicCoefficients e.poleIntegral phi (Real.sin phi) (Real.cos phi)

lemma usesSeries_iff : e.usesSeries = true ↔ |e.thirdFlattening| < 0.01 := by
  unfold usesSeries
  exact decide_eq_true_iff

lemma authalicLatitude_of_series (h : e.usesSeries = true) (series : Authalic.Coefficients ℝ)
    (poleIntegral phi : ℝ) :
    e.authalicLatitude series poleIntegral phi (Real.sin phi) (Real.cos phi) =
      phi + sinesFrom (2 * phi) 1 series.forward := by
  have hcos : (Real.cos phi - Real.sin phi) * (Real.cos phi + Real.sin phi) =
      Real.cos (2 * phi) := by
    rw [Real.cos_two_mul']
    ring
  rw [← sineSumOfTrig_eq, Real.sin_two_mul, ← hcos]
  exact if_pos h

theorem authalic_of_series (h : e.usesSeries = true) (phi : ℝ) :
    e.authalic phi = phi + sinesFrom (2 * phi) 1 e.authalicCoefficients.forward :=
  authalicLatitude_of_series h _ _ phi

/-- The way back starts with the series, and ends with it where the series is good enough. -/
lemma geographicLatitude_of_series (h : e.usesSeries = true) (series : Authalic.Coefficients ℝ)
    (poleIntegral xi : ℝ) :
    e.geographicLatitude series poleIntegral xi = xi + sinesFrom (2 * xi) 1 series.inverse := by
  rw [← sineSumOfTrig_eq]
  exact if_pos h

theorem authalic_of_closed (h : e.usesSeries = false) (phi : ℝ) :
    e.authalic phi =
      Real.arcsin (Arith.clamp (-1) 1 (e.authalicIntegral (Real.sin phi) / e.poleIntegral)) :=
  if_neg (by simp [h])

/-! ## The equator -/

lemma authalic_zero (e : Ellipsoid ℝ) : e.authalic 0 = 0 := by
  cases hseries : e.usesSeries with
  | true =>
    have hle := abs_sinesFrom_le (2 * 0) 1 e.authalicCoefficients.forward
    rw [mul_zero, Real.sin_zero, abs_zero, mul_zero, abs_nonpos_iff] at hle
    rw [authalic_of_series hseries, mul_zero, hle, add_zero]
  | false =>
    have hmem : (0 : ℝ) ∈ Set.Icc (-1 : ℝ) 1 := ⟨by norm_num, by norm_num⟩
    rw [authalic_of_closed hseries, Real.sin_zero, authalicIntegral_zero, zero_div,
      Exact.clamp_of_mem hmem, Real.arcsin_zero]

lemma newtonStep_zero (eccentricitySq : ℝ) : Authalic.newtonStep eccentricitySq 0 0 = 0 := by
  simp [Authalic.newtonStep]

/-- Wherever the iteration ends, it has not left a latitude that needs no correction. -/
lemma refine_of_newtonStep_eq_zero {eccentricitySq q phi : ℝ}
    (h : Authalic.newtonStep eccentricitySq q phi = 0) (steps : ℕ) :
    Authalic.refine eccentricitySq q steps phi = phi := by
  induction steps with
  | zero => rfl
  | succ steps ih => simp only [Authalic.refine, h, add_zero, ih, ite_self]

lemma geographicLatitude_zero (e : Ellipsoid ℝ) (series : Authalic.Coefficients ℝ) (poleIntegral : ℝ) :
    e.geographicLatitude series poleIntegral 0 = 0 := by
  have hstart : (0 : ℝ) + sineSum (2 * 0) series.inverse = 0 := by
    simp [sineSum, sineSumOfTrig]
  have hgoal : Real.sin 0 * poleIntegral = 0 := by rw [Real.sin_zero, zero_mul]
  simp only [geographicLatitude, hstart, Exact.sin_eq, hgoal,
    refine_of_newtonStep_eq_zero (newtonStep_zero _), ite_self]

/-! ## The series -/

lemma abs_authalic_sub_le (h : e.usesSeries = true) (phi : ℝ) :
    |e.authalic phi - phi| ≤ 0.26 * |Real.sin phi| * |Real.cos phi| := by
  have hweight : weightFrom 1 e.authalicCoefficients.forward < 0.13 :=
    Authalic.weight_forward_lt (usesSeries_iff.mp h)
  have hsin : |Real.sin (2 * phi)| = 2 * |Real.sin phi| * |Real.cos phi| := by
    rw [Real.sin_two_mul, abs_mul, abs_mul, abs_two]
  rw [authalic_of_series h, add_sub_cancel_left]
  calc |sinesFrom (2 * phi) 1 e.authalicCoefficients.forward|
      ≤ weightFrom 1 e.authalicCoefficients.forward * |Real.sin (2 * phi)| :=
        abs_sinesFrom_le _ _ _
    _ ≤ 0.13 * |Real.sin (2 * phi)| :=
        mul_le_mul_of_nonneg_right hweight.le (abs_nonneg _)
    _ = 0.26 * |Real.sin phi| * |Real.cos phi| := by rw [hsin]; ring

/-- The series is too small to change the sign of the cosine. -/
lemma sq_le_cos_mul_cos_authalic (h : e.usesSeries = true) (phi : ℝ) :
    Real.cos phi ^ 2 ≤ 2 * (Real.cos phi * Real.cos (e.authalic phi)) := by
  set delta := e.authalic phi - phi with hdelta
  have hle : |delta| ≤ 0.26 * |Real.sin phi| * |Real.cos phi| := abs_authalic_sub_le h phi
  have hsinphi := Real.abs_sin_le_one phi
  have hcosphi := Real.abs_cos_le_one phi
  -- The conversion moves a latitude by about a quarter of its cosine at most, so the cosine is not
  -- even halved.
  have hsmall : |delta| ≤ 0.26 * |Real.cos phi| := by
    nlinarith [abs_nonneg (Real.sin phi), abs_nonneg (Real.cos phi)]
  have hcosdelta : 0.9 ≤ Real.cos delta := by
    have hquadratic := Real.one_sub_sq_div_two_le_cos (x := delta)
    nlinarith [abs_nonneg delta, sq_abs delta]
  have hsindelta : |Real.sin phi * Real.sin delta| ≤ 0.26 * |Real.cos phi| := by
    rw [abs_mul]
    calc |Real.sin phi| * |Real.sin delta| ≤ 1 * |delta| :=
          mul_le_mul hsinphi Real.abs_sin_le_abs (abs_nonneg _) zero_le_one
      _ ≤ 0.26 * |Real.cos phi| := by rw [one_mul]; exact hsmall
  have hcross : Real.cos phi * (Real.sin phi * Real.sin delta) ≤ 0.26 * Real.cos phi ^ 2 := by
    calc Real.cos phi * (Real.sin phi * Real.sin delta)
        ≤ |Real.cos phi| * |Real.sin phi * Real.sin delta| := by
          rw [← abs_mul]
          exact le_abs_self _
      _ ≤ |Real.cos phi| * (0.26 * |Real.cos phi|) :=
          mul_le_mul_of_nonneg_left hsindelta (abs_nonneg _)
      _ = 0.26 * Real.cos phi ^ 2 := by rw [← sq_abs (Real.cos phi)]; ring
  have hsplit : Real.cos (e.authalic phi) =
      Real.cos phi * Real.cos delta - Real.sin phi * Real.sin delta := by
    rw [← Real.cos_add, hdelta, add_sub_cancel]
  rw [hsplit]
  nlinarith [sq_nonneg (Real.cos phi)]

/-! ## The closed form -/

lemma abs_sin_lt_one (h : Real.cos phi ≠ 0) : |Real.sin phi| < 1 := by
  have hsq : 0 < Real.cos phi ^ 2 := by positivity
  rw [← sq_lt_one_iff_abs_lt_one]
  linarith [Real.sin_sq_add_cos_sq phi]

/-- Away from the poles the quotient of the integrals is the sine of no pole. -/
lemma Flattened.abs_quotient_lt_one (he : e.Flattened) (h : Real.cos phi ≠ 0) :
    |e.authalicIntegral (Real.sin phi) / e.poleIntegral| < 1 := by
  rw [abs_div, abs_of_pos he.poleIntegral_pos, div_lt_one he.poleIntegral_pos]
  exact he.abs_authalicIntegral_lt (abs_sin_lt_one h)

/-- Away from the poles nothing has to be clamped. -/
lemma Flattened.authalic_of_closed (he : e.Flattened) (hseries : e.usesSeries = false)
    (h : Real.cos phi ≠ 0) :
    e.authalic phi = Real.arcsin (e.authalicIntegral (Real.sin phi) / e.poleIntegral) := by
  rw [Ellipsoid.authalic_of_closed hseries,
    Exact.clamp_of_mem (abs_le.mp (he.abs_quotient_lt_one h).le)]

/-- The sine of the authalic latitude is the quotient of the integrals. -/
lemma Flattened.sin_authalic_mul (he : e.Flattened) (hseries : e.usesSeries = false)
    (h : Real.cos phi ≠ 0) :
    Real.sin (e.authalic phi) * e.poleIntegral = e.authalicIntegral (Real.sin phi) := by
  obtain ⟨hlow, hhigh⟩ := abs_lt.mp (he.abs_quotient_lt_one h)
  rw [he.authalic_of_closed hseries h, Real.sin_arcsin hlow.le hhigh.le,
    div_mul_cancel₀ _ he.poleIntegral_pos.ne']

lemma Flattened.authalic_mem_Ioo_of_closed (he : e.Flattened) (hseries : e.usesSeries = false)
    (h : Real.cos phi ≠ 0) : e.authalic phi ∈ Set.Ioo (-(Real.pi / 2)) (Real.pi / 2) := by
  obtain ⟨hlow, hhigh⟩ := abs_lt.mp (he.abs_quotient_lt_one h)
  rw [he.authalic_of_closed hseries h]
  exact ⟨Real.neg_pi_div_two_lt_arcsin.mpr hlow, Real.arcsin_lt_pi_div_two.mpr hhigh⟩

lemma usesSeries_eq_false (h : 0.01 ≤ e.thirdFlattening) : e.usesSeries = false := by
  rw [Bool.eq_false_iff, ne_eq, usesSeries_iff, not_lt]
  exact h.trans (le_abs_self _)

/-- An ellipsoid that is flat enough for the closed form is not taken for a sphere by the
integral. -/
lemma le_eccentricity (hflat : e.flattening < 1) (h : 0.01 ≤ e.thirdFlattening) :
    1e-7 ≤ e.eccentricity := by
  have hle : 0.01 * (2 - e.flattening) ≤ e.flattening :=
    (le_div_iff₀ (by linarith)).mp h
  apply Real.le_sqrt_of_sq_le
  change _ ≤ e.flattening * (2 - e.flattening)
  nlinarith

lemma flattening_mul (h : 0 < e.thirdFlattening) :
    e.flattening * (1 + e.thirdFlattening) = 2 * e.thirdFlattening := by
  have hne : 2 - e.flattening ≠ 0 := by
    intro hzero
    simp [thirdFlattening, hzero] at h
  have hdefinition : e.thirdFlattening * (2 - e.flattening) = e.flattening := div_mul_cancel₀ _ hne
  linear_combination -hdefinition

/-- The squared eccentricity as a function of the third flattening. -/
lemma eccentricitySq_mul (h : 0 < e.thirdFlattening) :
    e.eccentricitySq * (1 + e.thirdFlattening) ^ 2 = 4 * e.thirdFlattening := by
  have hflattening := flattening_mul h
  unfold eccentricitySq
  linear_combination (2 * (1 + e.thirdFlattening) - e.flattening * (1 + e.thirdFlattening) -
    2 * e.thirdFlattening) * hflattening

/-- The denominators of the integral are those of the radii of curvature. -/
lemma Flattened.one_sub_sq_eq (he : e.Flattened) (phi : ℝ) :
    1 - e.eccentricity * Real.sin phi * (e.eccentricity * Real.sin phi) = e.curvatureTerm phi := by
  change _ = 1 - Real.sin phi * Real.sin phi * e.eccentricitySq
  rw [← he.eccentricity_mul_self]
  ring

/-- The sine of the authalic latitude changes with the area of the zone. -/
theorem Flattened.hasDerivAt_authalic (he : e.Flattened) (hflat : e.flattening < 1)
    (h : 0.01 ≤ e.thirdFlattening) (hcos : Real.cos phi ≠ 0) :
    ∃ slope, HasDerivAt e.authalic slope phi ∧
      slope * Real.cos (e.authalic phi) * e.poleIntegral =
        2 * (1 - e.eccentricitySq) * Real.cos phi / e.curvatureTerm phi ^ 2 := by
  have hseries := usesSeries_eq_false h
  have hpole := he.poleIntegral_pos
  have hsin := Real.sin_mem_Icc phi
  obtain ⟨hlow, hhigh⟩ := abs_lt.mp (he.abs_quotient_lt_one hcos)
  -- The closed form makes an exception of the poles, and of no latitude near another one.
  have hnear : e.authalic =ᶠ[nhds phi] fun phi =>
      Real.arcsin (e.authalicIntegral (Real.sin phi) / e.poleIntegral) := by
    filter_upwards [Real.continuous_cos.continuousAt.eventually_ne hcos] with psi hpsi
    exact he.authalic_of_closed hseries hpsi
  have hintegral := (Authalic.hasDerivAt_integral (le_eccentricity hflat h)
    he.eccentricity_lt_one hsin).comp phi (Real.hasDerivAt_sin phi)
  have hquotient : HasDerivAt
      (fun phi => e.authalicIntegral (Real.sin phi) / e.poleIntegral) _ phi :=
    hintegral.div_const e.poleIntegral
  have hroot : Real.cos (e.authalic phi) ≠ 0 :=
    (Real.cos_pos_of_mem_Ioo (he.authalic_mem_Ioo_of_closed hseries hcos)).ne'
  have hclosed := (Real.hasDerivAt_arcsin hlow.ne' hhigh.ne).comp phi hquotient
  refine ⟨_, hclosed.congr_of_eventuallyEq hnear, ?_⟩
  have hcosine : Real.sqrt (1 - (e.authalicIntegral (Real.sin phi) / e.poleIntegral) ^ 2) =
      Real.cos (e.authalic phi) := by
    rw [he.authalic_of_closed hseries hcos, Real.cos_arcsin]
  rw [he.one_sub_sq_eq, he.eccentricity_mul_self, hcosine]
  field_simp

/-! ## Both ways -/

/-- What is not at a pole has no authalic latitude at a pole. -/
theorem Flattened.cos_authalic_ne_zero (he : e.Flattened) (h : Real.cos phi ≠ 0) :
    Real.cos (e.authalic phi) ≠ 0 := by
  cases hseries : e.usesSeries with
  | true =>
    have hle := sq_le_cos_mul_cos_authalic hseries phi
    have hsq : 0 < Real.cos phi ^ 2 := by positivity
    intro hzero
    rw [hzero] at hle
    linarith
  | false => exact (Real.cos_pos_of_mem_Ioo (he.authalic_mem_Ioo_of_closed hseries h)).ne'

theorem Flattened.cos_authalic_pos (he : e.Flattened) (h : 0 < Real.cos phi) :
    0 < Real.cos (e.authalic phi) := by
  cases hseries : e.usesSeries with
  | true =>
    have hle := sq_le_cos_mul_cos_authalic hseries phi
    have hsq : 0 < Real.cos phi ^ 2 := by positivity
    exact pos_of_mul_pos_right (by linarith) h.le
  | false => exact Real.cos_pos_of_mem_Ioo (he.authalic_mem_Ioo_of_closed hseries h.ne')

/-- What lies between the poles has its authalic latitude between the poles. -/
theorem Flattened.authalic_mem_Ioo (he : e.Flattened)
    (hphi : phi ∈ Set.Ioo (-(Real.pi / 2)) (Real.pi / 2)) :
    e.authalic phi ∈ Set.Ioo (-(Real.pi / 2)) (Real.pi / 2) := by
  have hcos := Real.cos_pos_of_mem_Ioo hphi
  cases hseries : e.usesSeries with
  | false => exact he.authalic_mem_Ioo_of_closed hseries hcos.ne'
  | true =>
    have hpos := he.cos_authalic_pos hcos
    have hnear : |e.authalic phi - phi| ≤ 1 := by
      have hle := abs_authalic_sub_le hseries phi
      nlinarith [Real.abs_sin_le_one phi, Real.abs_cos_le_one phi, abs_nonneg (Real.sin phi),
        abs_nonneg (Real.cos phi)]
    -- A positive cosine leaves whole turns open, and a bound for the difference excludes them.
    obtain ⟨hlow, hhigh⟩ := abs_le.mp hnear
    have hpi := Real.pi_gt_three
    constructor
    · by_contra hpole
      have hle := Real.cos_nonpos_of_pi_div_two_le_of_le (x := -e.authalic phi)
        (by linarith) (by linarith [hphi.1])
      rw [Real.cos_neg] at hle
      linarith
    · by_contra hpole
      have hle := Real.cos_nonpos_of_pi_div_two_le_of_le (x := e.authalic phi)
        (by linarith) (by linarith [hphi.2])
      linarith

end Ellipsoid

end EqualArea
