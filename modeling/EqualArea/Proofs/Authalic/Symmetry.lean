import EqualArea.Projection.Basic
import EqualArea.Proofs.Authalic.Latitude

/-!
# The symmetry of the authalic latitude

Both conversions of latitudes treat the two hemispheres alike, by whatever way they are computed.

* `Series.sineSumOfTrig_neg`, `Series.sineSum_neg` — a sine series is odd.
* `Authalic.newtonStep_neg`, `Authalic.refine_neg` — so is the iteration: its corrections change
  their sign, and the tests that end it do not.
* `Ellipsoid.authalicLatitude_neg`, `Ellipsoid.geographicLatitude_neg` — the conversions are odd.
* `Ellipsoid.Flattened.authalic_pi_div_two`, `Ellipsoid.Flattened.authalic_mem_Icc` — a pole is
  converted to the pole, so what is not past a pole stays so.
-/

namespace EqualArea

namespace Series

lemma sineSumOfTrig_neg (sin cos : ℝ) (cs : List ℝ) :
    sineSumOfTrig (-sin) cos cs = -sineSumOfTrig sin cos cs := neg_mul sin _

lemma sineSum_neg (angle : ℝ) (cs : List ℝ) : sineSum (-angle) cs = -sineSum angle cs := by
  simp only [sineSum, Exact.sin_eq, Exact.cos_eq, Real.sin_neg, Real.cos_neg, sineSumOfTrig_neg]

end Series

namespace Authalic

lemma newtonStep_neg (eccentricitySq q phi : ℝ) :
    newtonStep eccentricitySq (-q) (-phi) = -newtonStep eccentricitySq q phi := by
  simp only [newtonStep, Exact.sin_eq, Exact.cos_eq, Exact.sqrt_eq, Exact.atanh_eq, Real.sin_neg,
    Real.cos_neg, mul_neg, neg_mul, neg_neg, Exact.artanh_neg]
  ring

/-- The iteration mirrors itself step by step. -/
lemma refine_neg (eccentricitySq q : ℝ) (steps : ℕ) (phi : ℝ) :
    refine eccentricitySq (-q) steps (-phi) = -refine eccentricitySq q steps phi := by
  induction steps generalizing phi with
  | zero => rfl
  | succ steps ih =>
    have hnext : -phi + -newtonStep eccentricitySq q phi =
        -(phi + newtonStep eccentricitySq q phi) := by ring
    simp only [refine, newtonStep_neg, Exact.abs_eq, abs_neg, Exact.isFinite_eq, if_true, hnext, ih]
    split_ifs <;> rfl

end Authalic

namespace Ellipsoid

open Series

variable {e : Ellipsoid ℝ} {phi : ℝ}

theorem authalicLatitude_neg (e : Ellipsoid ℝ) (series : Authalic.Coefficients ℝ)
    (poleIntegral latitude sin cos : ℝ) :
    e.authalicLatitude series poleIntegral (-latitude) (-sin) cos =
      -e.authalicLatitude series poleIntegral latitude sin cos := by
  have hsin : 2 * -sin * cos = -(2 * sin * cos) := by ring
  have hcos : (cos - -sin) * (cos + -sin) = (cos - sin) * (cos + sin) := by ring
  unfold authalicLatitude
  split_ifs with hseries
  · rw [hsin, hcos, sineSumOfTrig_neg]
    ring
  · rw [authalicIntegral_neg, neg_div, Exact.clamp_neg zero_le_one]
    exact Real.arcsin_neg _

theorem geographicLatitude_neg (e : Ellipsoid ℝ) (series : Authalic.Coefficients ℝ)
    (poleIntegral authalic : ℝ) :
    e.geographicLatitude series poleIntegral (-authalic) =
      -e.geographicLatitude series poleIntegral authalic := by
  have hstart : -authalic + sineSum (2 * -authalic) series.inverse =
      -(authalic + sineSum (2 * authalic) series.inverse) := by
    rw [mul_neg, sineSum_neg]
    ring
  simp only [geographicLatitude, hstart, Exact.sin_eq, Real.sin_neg, neg_mul, Authalic.refine_neg]
  split_ifs <;> rfl

lemma authalic_neg (e : Ellipsoid ℝ) (phi : ℝ) : e.authalic (-phi) = -e.authalic phi := by
  rw [authalic, Real.sin_neg, Real.cos_neg, authalicLatitude_neg, authalic]

/-! ## The poles -/

lemma Flattened.authalic_pi_div_two (he : e.Flattened) :
    e.authalic (Real.pi / 2) = Real.pi / 2 := by
  cases hseries : e.usesSeries with
  | true =>
    have hle := abs_sinesFrom_le (2 * (Real.pi / 2)) 1 e.authalicCoefficients.forward
    rw [mul_div_cancel₀ _ two_ne_zero, Real.sin_pi, abs_zero, mul_zero, abs_nonpos_iff] at hle
    rw [authalic_of_series hseries, mul_div_cancel₀ _ two_ne_zero, hle, add_zero]
  | false =>
    have hone : e.authalicIntegral 1 / e.poleIntegral = 1 := div_self he.poleIntegral_pos.ne'
    rw [Ellipsoid.authalic_of_closed hseries, Real.sin_pi_div_two, hone,
      Exact.clamp_of_mem ⟨by norm_num, le_rfl⟩, Real.arcsin_one]

lemma Flattened.authalic_neg_pi_div_two (he : e.Flattened) :
    e.authalic (-(Real.pi / 2)) = -(Real.pi / 2) := by
  rw [authalic_neg, he.authalic_pi_div_two]

/-- What is not past a pole has its authalic latitude not past a pole. -/
theorem Flattened.authalic_mem_Icc (he : e.Flattened)
    (hphi : phi ∈ Set.Icc (-(Real.pi / 2)) (Real.pi / 2)) :
    e.authalic phi ∈ Set.Icc (-(Real.pi / 2)) (Real.pi / 2) := by
  have hpi := Real.pi_pos
  rcases Set.eq_endpoints_or_mem_Ioo_of_mem_Icc hphi with rfl | rfl | hinner
  · rw [he.authalic_neg_pi_div_two]
    exact hphi
  · rw [he.authalic_pi_div_two]
    exact hphi
  · exact Set.Ioo_subset_Icc_self (he.authalic_mem_Ioo hinner)

end Ellipsoid

/-- The conversions of a projection are odd. -/
lemma Spheroid.authalicLatitude_neg (s : Spheroid ℝ) (phi : ℝ) :
    s.authalicLatitude (-phi) = -s.authalicLatitude phi := by
  simp only [authalicLatitude, Exact.sin_eq, Exact.cos_eq, Real.sin_neg, Real.cos_neg,
    Ellipsoid.authalicLatitude_neg]

lemma Spheroid.geographicLatitude_neg (s : Spheroid ℝ) (xi : ℝ) :
    s.geographicLatitude (-xi) = -s.geographicLatitude xi := Ellipsoid.geographicLatitude_neg _ _ _ _

end EqualArea
