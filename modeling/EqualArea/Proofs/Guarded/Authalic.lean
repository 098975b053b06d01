import EqualArea.Proofs.Authalic.Latitude
import EqualArea.Proofs.Guarded.Lift

/-!
# The authalic latitude in guarded numbers

Neither conversion of a latitude leaves the domain of an operation, on any ellipsoid that is no
sphere and at any angle.

* `Guarded.integral_of` — the integral, whose logarithm is that of a positive number.
* `Guarded.authalicLatitude_of` — the conversion to the authalic latitude.
* `Guarded.newtonStep_of`, `Guarded.refine_of` — a correction is defined away from the poles, and
  the iteration never takes one at a pole.
* `Guarded.geographicLatitude_of` — the conversion back.
-/

namespace EqualArea

/-- Where the iteration takes a correction, it is not at a pole. -/
lemma Authalic.cos_pos_of_far {phi : ℝ} (h : ¬Real.pi / 2 - |phi| < 1e-12) :
    0 < Real.cos phi := by
  have hlt : |phi| < Real.pi / 2 := by
    have hmargin : (0 : ℝ) < 1e-12 := by norm_num
    linarith [not_lt.mp h]
  exact Real.cos_pos_of_mem_Ioo (abs_lt.mp hlt)

namespace Guarded

variable {v : Verdict} {e : Ellipsoid ℝ} {phi : ℝ}

/-! ## The shape of the ellipsoid -/

@[simp] lemma eccentricitySq_of :
    (e.map of : Ellipsoid (Guarded v)).eccentricitySq = of e.eccentricitySq := rfl

lemma eccentricity_of (he : e.Flattened) :
    (e.map of : Ellipsoid (Guarded v)).eccentricity = of e.eccentricity := by
  unfold Ellipsoid.eccentricity
  rw [eccentricitySq_of, of_sqrt he.pos.le]

lemma thirdFlattening_of (he : e.Flattened) :
    (e.map of : Ellipsoid (Guarded v)).thirdFlattening = of e.thirdFlattening :=
  of_div he.two_sub_flattening_pos.ne'

lemma usesSeries_of (he : e.Flattened) :
    (e.map of : Ellipsoid (Guarded v)).usesSeries = e.usesSeries := by
  unfold Ellipsoid.usesSeries
  rw [thirdFlattening_of he]
  simp only [of_abs, Authalic.seriesLimit, ofScientific_eq, of_lt]
  rfl

lemma authalicCoefficients_of (he : e.Flattened) :
    (e.map of : Ellipsoid (Guarded v)).authalicCoefficients = e.authalicCoefficients.map of := by
  unfold Ellipsoid.authalicCoefficients
  rw [thirdFlattening_of he, coefficients_of]

/-! ## The integral -/

lemma integral_of {s c : ℝ} (hc0 : 0 ≤ c) (hc1 : c < 1) (hs : s ∈ Set.Icc (-1 : ℝ) 1) :
    (Authalic.integral (of s) (of c) : Guarded v) = of (Authalic.integral s c) := by
  obtain ⟨hlow, hhigh⟩ := abs_lt.mp (Authalic.abs_mul_lt_one hc0 hc1 hs)
  have hsquare := Authalic.one_sub_sq_pos hc0 hc1 hs
  have hplus : 0 < 1 + c * s := by linarith
  have hminus : 0 < 1 - c * s := by linarith
  unfold Authalic.integral
  simp only [ofNat_eq, ofScientific_eq, of_lt, of_mul, of_sub, of_add]
  split_ifs with hsmall
  · rfl
  · have hpos : 0 < c := lt_of_lt_of_le (by norm_num) (not_lt.mp hsmall)
    rw [of_div hsquare.ne', of_div hpos.ne', of_div hplus.ne', of_log (div_pos hminus hplus)]
    rfl

lemma authalicIntegral_of (he : e.Flattened) {s : ℝ} (hs : s ∈ Set.Icc (-1 : ℝ) 1) :
    (e.map of : Ellipsoid (Guarded v)).authalicIntegral (of s) = of (e.authalicIntegral s) := by
  unfold Ellipsoid.authalicIntegral
  rw [eccentricity_of he, integral_of e.eccentricity_nonneg he.eccentricity_lt_one hs]

lemma poleIntegral_of (he : e.Flattened) :
    (e.map of : Ellipsoid (Guarded v)).poleIntegral = of e.poleIntegral := by
  have hone : (1 : ℝ) ∈ Set.Icc (-1 : ℝ) 1 := ⟨by norm_num, le_rfl⟩
  exact authalicIntegral_of he hone

/-! ## To the authalic latitude -/

theorem authalicLatitude_of (he : e.Flattened) (phi : ℝ) :
    (e.map of : Ellipsoid (Guarded v)).authalicLatitude (e.authalicCoefficients.map of)
        (of e.poleIntegral) (of phi) (of (Real.sin phi)) (of (Real.cos phi)) =
      of (e.authalic phi) := by
  have hsin := Real.sin_mem_Icc phi
  unfold Ellipsoid.authalicLatitude Ellipsoid.authalic Ellipsoid.authalicLatitude
  rw [usesSeries_of he]
  split_ifs
  · simp only [Authalic.Coefficients.forward_map, ofNat_eq, of_mul, of_sub, of_add,
      sineSumOfTrig_of]
  · simp only [authalicIntegral_of he hsin, of_div he.poleIntegral_pos.ne', ofNat_eq, of_neg,
      of_clamp]
    exact of_asin (Exact.clamp_mem (by norm_num) _)

/-! ## From the authalic latitude -/

/-- A correction at a latitude that is at no pole is defined. -/
theorem newtonStep_of {es q : ℝ} (hpos : 0 < es) (hlt : es < 1) (hcos : Real.cos phi ≠ 0) :
    (Authalic.newtonStep (of es) (of q) (of phi) : Guarded v) =
      of (Authalic.newtonStep es q phi) := by
  have hroot : (0 : ℝ) < Arith.sqrt es := Real.sqrt_pos.mpr hpos
  have hroot1 : (Arith.sqrt es : ℝ) < 1 := by
    have h := Real.sqrt_lt_sqrt hpos.le hlt
    rwa [Real.sqrt_one] at h
  have hsin : (Arith.sin phi : ℝ) ∈ Set.Icc (-1 : ℝ) 1 := Real.sin_mem_Icc phi
  have hterm := Authalic.one_sub_mul_pos hpos.le hlt hsin
  have hatanh : Arith.sqrt es * Arith.sin phi ∈ Set.Ioo (-1 : ℝ) 1 :=
    abs_lt.mp (Authalic.abs_mul_lt_one hroot.le hroot1 hsin)
  have hdouble : (2 : ℝ) * Arith.cos phi ≠ 0 := mul_ne_zero two_ne_zero hcos
  unfold Authalic.newtonStep
  simp only [of_sqrt hpos.le, of_sin, of_cos, of_mul, of_sub, ofNat_eq, of_atanh hatanh]
  rw [of_div hdouble, of_div (sub_pos.mpr hlt).ne', of_div hterm.ne', of_div hroot.ne']
  rfl

theorem refine_of {es : ℝ} (hpos : 0 < es) (hlt : es < 1) (q : ℝ) (steps : ℕ) (phi : ℝ) :
    (Authalic.refine (of es) (of q) steps (of phi) : Guarded v) =
      of (Authalic.refine es q steps phi) := by
  induction steps generalizing phi with
  | zero => rfl
  | succ steps ih =>
    unfold Authalic.refine
    simp only [quarterTurn_eq, of_abs, of_sub, ofScientific_eq, of_lt]
    by_cases hpole : Arith.quarterTurn - Arith.abs phi < (1e-12 : ℝ)
    · exact (if_pos hpole).trans (congrArg of (if_pos hpole).symm)
    · have hstep : (Authalic.newtonStep (of es) (of q) (of phi) : Guarded v) =
          of (Authalic.newtonStep es q phi) :=
        newtonStep_of hpos hlt (Authalic.cos_pos_of_far hpole).ne'
      simp only [hstep, of_isFinite, of_abs, of_lt, of_add, ih, Exact.isFinite_eq, if_true]
      split_ifs <;> rfl

theorem geographicLatitude_of (he : e.Flattened) (authalic : ℝ) :
    (e.map of : Ellipsoid (Guarded v)).geographicLatitude (e.authalicCoefficients.map of)
        (of e.poleIntegral) (of authalic) =
      of (e.geographicLatitude e.authalicCoefficients e.poleIntegral authalic) := by
  unfold Ellipsoid.geographicLatitude
  rw [usesSeries_of he]
  simp only [Authalic.Coefficients.inverse_map, ofNat_eq, of_mul, sineSum_of, of_add, of_sin,
    eccentricitySq_of, refine_of he.pos he.lt_one]
  split_ifs <;> rfl

end Guarded

end EqualArea
