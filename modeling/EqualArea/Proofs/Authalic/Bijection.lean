import EqualArea.Proofs.Authalic.Symmetry

/-!
# The authalic latitude as a change of coordinate

By whatever way it is computed, the authalic latitude takes the latitudes between the poles to
themselves, in the same order.

* `Authalic.continuousOn_integral` — the authalic integral has no jumps.
* `Ellipsoid.Flattened.abs_authalicIntegral_le`, `Ellipsoid.Flattened.clamp_quotient` — its quotient
  by the value at the pole is never clamped, at any latitude.
* `Ellipsoid.Flattened.authalic_strictMonoOn`, `Ellipsoid.Flattened.authalic_bijOn` — the authalic
  latitude increases with the latitude and omits no latitude.
* `Ellipsoid.Flattened.authalic_reparametrises` — all of this together.

**Design.**  The series adds to the latitude a term that changes by less than a third of what the
latitude changes by, so no derivative is taken.  The closed form is a composition of three
increasing functions.
-/

namespace EqualArea

/-- The authalic integral has no jumps, by either of its formulas. -/
lemma Authalic.continuousOn_integral {e : ℝ} (he1 : e < 1) :
    ContinuousOn (fun s => integral s e) (Set.Icc (-1) 1) := by
  rcases lt_or_ge e 1e-7 with he | he
  · simp only [integral_of_lt he]
    exact (continuous_const.mul continuous_id).continuousOn
  · exact fun s hs => (hasDerivAt_integral he he1 hs).continuousAt.continuousWithinAt

namespace Ellipsoid

open Series

variable {e : Ellipsoid ℝ} {phi psi : ℝ}

/-! ## The closed form -/

/-- The integral stays within its values at the poles. -/
lemma Flattened.abs_authalicIntegral_le (he : e.Flattened) {s : ℝ} (hs : s ∈ Set.Icc (-1 : ℝ) 1) :
    |e.authalicIntegral s| ≤ e.poleIntegral := by
  have hmono := he.authalicIntegral_strictMonoOn.monotoneOn
  have hsouth := hmono (Set.left_mem_Icc.mpr (by norm_num)) hs hs.1
  have hnorth := hmono hs (Set.right_mem_Icc.mpr (by norm_num)) hs.2
  rw [authalicIntegral_neg] at hsouth
  exact abs_le.mpr ⟨hsouth, hnorth⟩

lemma Flattened.quotient_mem (he : e.Flattened) (phi : ℝ) :
    e.authalicIntegral (Real.sin phi) / e.poleIntegral ∈ Set.Icc (-1 : ℝ) 1 := by
  rw [Set.mem_Icc, ← abs_le, abs_div, abs_of_pos he.poleIntegral_pos,
    div_le_one he.poleIntegral_pos]
  exact he.abs_authalicIntegral_le (Real.sin_mem_Icc phi)

/-- At no latitude is there anything to clamp. -/
lemma Flattened.clamp_quotient (he : e.Flattened) (phi : ℝ) :
    Arith.clamp (-1) 1 (e.authalicIntegral (Real.sin phi) / e.poleIntegral) =
      e.authalicIntegral (Real.sin phi) / e.poleIntegral :=
  Exact.clamp_of_mem (he.quotient_mem phi)

/-- The closed form, as a function of the latitude. -/
lemma Flattened.authalic_eq_arcsin (he : e.Flattened) (hseries : e.usesSeries = false) :
    e.authalic =
      fun phi => Real.arcsin (e.authalicIntegral (Real.sin phi) / e.poleIntegral) := by
  funext phi
  rw [Ellipsoid.authalic_of_closed hseries, he.clamp_quotient]

/-! ## Order and continuity -/

/-- What the series adds changes more slowly than the latitude. -/
lemma authalic_lt_of_series (hseries : e.usesSeries = true) (h : phi < psi) :
    e.authalic phi < e.authalic psi := by
  have hweight : weightFrom 1 e.authalicCoefficients.forward < 0.13 :=
    Authalic.weight_forward_lt (usesSeries_iff.mp hseries)
  have hle := abs_sinesFrom_sub_le (2 * phi) (2 * psi) 1 e.authalicCoefficients.forward
  have hgap : |2 * phi - 2 * psi| = 2 * (psi - phi) := by
    rw [abs_of_neg (by linarith)]
    ring
  rw [hgap] at hle
  rw [authalic_of_series hseries, authalic_of_series hseries]
  nlinarith [(abs_le.mp hle).2]

/-- The authalic latitude increases with the latitude. -/
theorem Flattened.authalic_strictMonoOn (he : e.Flattened) :
    StrictMonoOn e.authalic (Set.Icc (-(Real.pi / 2)) (Real.pi / 2)) := by
  cases hseries : e.usesSeries with
  | true => exact fun phi _ psi _ h => authalic_lt_of_series hseries h
  | false =>
    rw [he.authalic_eq_arcsin hseries]
    intro phi hphi psi hpsi h
    refine Real.strictMonoOn_arcsin (he.quotient_mem phi) (he.quotient_mem psi) ?_
    exact div_lt_div_of_pos_right (he.authalicIntegral_strictMonoOn (Real.sin_mem_Icc phi)
      (Real.sin_mem_Icc psi) (Real.strictMonoOn_sin hphi hpsi h)) he.poleIntegral_pos

lemma Flattened.continuous_authalic (he : e.Flattened) : Continuous e.authalic := by
  cases hseries : e.usesSeries with
  | true =>
    have hsum (k : ℕ) (cs : List ℝ) : Continuous fun x => sinesFrom x k cs := by
      induction cs generalizing k with
      | nil => exact continuous_const
      | cons c rest ih =>
        exact (continuous_const.mul (Real.continuous_sin.comp
          (continuous_const.mul continuous_id))).add (ih (k + 1))
    have hfun : e.authalic =
        fun phi => phi + sinesFrom (2 * phi) 1 e.authalicCoefficients.forward :=
      funext (authalic_of_series hseries)
    have hdouble : Continuous fun phi : ℝ => 2 * phi := continuous_const.mul continuous_id
    rw [hfun]
    exact continuous_id.add ((hsum 1 e.authalicCoefficients.forward).comp hdouble)
  | false =>
    rw [he.authalic_eq_arcsin hseries]
    have hintegral : Continuous fun phi => e.authalicIntegral (Real.sin phi) :=
      (Authalic.continuousOn_integral he.eccentricity_lt_one).comp_continuous Real.continuous_sin
        Real.sin_mem_Icc
    exact Real.continuous_arcsin.comp (hintegral.div_const _)

/-- Every latitude is the authalic latitude of exactly one latitude. -/
theorem Flattened.authalic_bijOn (he : e.Flattened) :
    Set.BijOn e.authalic (Set.Icc (-(Real.pi / 2)) (Real.pi / 2))
      (Set.Icc (-(Real.pi / 2)) (Real.pi / 2)) := by
  have hpi := Real.pi_pos
  have hsurj := he.continuous_authalic.continuousOn.surjOn_Icc
    (Set.left_mem_Icc.mpr (by linarith : -(Real.pi / 2) ≤ Real.pi / 2))
    (Set.right_mem_Icc.mpr (by linarith : -(Real.pi / 2) ≤ Real.pi / 2))
  rw [he.authalic_neg_pi_div_two, he.authalic_pi_div_two] at hsurj
  exact ⟨fun phi => he.authalic_mem_Icc, he.authalic_strictMonoOn.injOn, hsurj⟩

/-- Every latitude north of the equator is the authalic latitude of one north of the equator. -/
lemma Flattened.exists_authalic_eq (he : e.Flattened) {xi : ℝ}
    (hxi : xi ∈ Set.Ico 0 (Real.pi / 2)) : ∃ phi ∈ Set.Ico 0 (Real.pi / 2), e.authalic phi = xi := by
  have hpi := Real.pi_pos
  obtain ⟨phi, hphi, heq⟩ := he.authalic_bijOn.surjOn ⟨by linarith [hxi.1], hxi.2.le⟩
  refine ⟨phi, ⟨?_, lt_of_le_of_ne hphi.2 ?_⟩, heq⟩
  · by_contra hsouth
    have hlt := he.authalic_strictMonoOn hphi ⟨by linarith, by linarith⟩ (not_le.mp hsouth)
    rw [heq, authalic_zero] at hlt
    linarith [hxi.1]
  · rintro rfl
    rw [he.authalic_pi_div_two] at heq
    linarith [hxi.2]

/-- **The authalic latitude is a change of coordinate.**  It is odd, increases from pole to pole and
takes every value between them, with the series and with the closed form.  So does the authalic
integral it is the quotient of, which therefore is never clamped. -/
theorem Flattened.authalic_reparametrises (he : e.Flattened) :
    (∀ phi, e.authalic (-phi) = -e.authalic phi) ∧
      StrictMonoOn e.authalic (Set.Icc (-(Real.pi / 2)) (Real.pi / 2)) ∧
      Set.BijOn e.authalic (Set.Icc (-(Real.pi / 2)) (Real.pi / 2))
        (Set.Icc (-(Real.pi / 2)) (Real.pi / 2)) ∧
      e.authalic (Real.pi / 2) = Real.pi / 2 ∧ e.authalic (-(Real.pi / 2)) = -(Real.pi / 2) ∧
      (∀ s, e.authalicIntegral (-s) = -e.authalicIntegral s) ∧
      StrictMonoOn e.authalicIntegral (Set.Icc (-1) 1) ∧
      ∀ phi, |e.authalicIntegral (Real.sin phi)| ≤ e.poleIntegral ∧
        Arith.clamp (-1) 1 (e.authalicIntegral (Real.sin phi) / e.poleIntegral) =
          e.authalicIntegral (Real.sin phi) / e.poleIntegral :=
  ⟨e.authalic_neg, he.authalic_strictMonoOn, he.authalic_bijOn, he.authalic_pi_div_two,
    he.authalic_neg_pi_div_two, e.authalicIntegral_neg, he.authalicIntegral_strictMonoOn,
    fun phi => ⟨he.abs_authalicIntegral_le (Real.sin_mem_Icc phi), he.clamp_quotient phi⟩⟩

/-- Half the height of a sphere, where the closed form is used, and an ellipsoid with a flattening
of a three-hundredth, where the series is. -/
theorem authalic_reparametrises_half_and_three_hundredth :
    let flat : Ellipsoid ℝ := ⟨1, 1 / 2⟩
    let round : Ellipsoid ℝ := ⟨1, 1 / 300⟩
    (flat.usesSeries = false ∧ flat.authalic 0 < flat.authalic 1 ∧
        flat.authalic (Real.pi / 2) = Real.pi / 2) ∧
      round.usesSeries = true ∧ round.authalic 0 < round.authalic 1 ∧
        round.authalic (Real.pi / 2) = Real.pi / 2 := by
  intro flat round
  have hpi := Real.pi_gt_three
  have hzero : (0 : ℝ) ∈ Set.Icc (-(Real.pi / 2)) (Real.pi / 2) := ⟨by linarith, by linarith⟩
  have hone : (1 : ℝ) ∈ Set.Icc (-(Real.pi / 2)) (Real.pi / 2) := ⟨by linarith, by linarith⟩
  have hround : round.Flattened := by constructor <;> norm_num [round, eccentricitySq]
  obtain ⟨-, hflatMono, -, hflatPole, -⟩ := flattened_half.authalic_reparametrises
  obtain ⟨-, hroundMono, -, hroundPole, -⟩ := hround.authalic_reparametrises
  refine ⟨⟨usesSeries_eq_false ?_, hflatMono hzero hone one_pos, hflatPole⟩,
    usesSeries_iff.mpr ?_, hroundMono hzero hone one_pos, hroundPole⟩
  · norm_num [flat, thirdFlattening]
  · norm_num [round, thirdFlattening, abs_of_pos]

end Ellipsoid

end EqualArea
