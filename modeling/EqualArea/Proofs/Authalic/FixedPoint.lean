import EqualArea.Proofs.Authalic.Newton

/-!
# What the iteration for the geographic latitude solves

The iteration is written with the inverse hyperbolic tangent, and the authalic integral with a
logarithm.  A correction is nevertheless Newton's, for the integral as it is computed.

* `Ellipsoid.Flattened.deriv_authalicIntegral_sin` — the slope of the integral.
* `Ellipsoid.Flattened.newtonStep_eq_zero_iff` — where there is nothing to correct.
* `Ellipsoid.Flattened.authalicIntegral_sin_injOn` — the integral tells latitudes apart.
* `Ellipsoid.refine_one` — one step of the iteration, away from the poles.
* `Ellipsoid.Flattened.newton_solves_integral` — the equation that a correction solves, and the one
  latitude at which the iteration stays.

**Design.**  The slope is the derivative of the integral as it is defined and not a formula for it,
so nothing is taken from how the correction is written.  Next to a pole the iteration leaves every
latitude alone, so what stays in place there says nothing about the equation; the correction itself
is looked at up to the poles.
-/

namespace EqualArea

namespace Ellipsoid

variable {e : Ellipsoid ℝ} {q phi root : ℝ}

/-! ## The slope -/

lemma Flattened.deriv_authalicIntegral_sin (he : e.Flattened) (hecc : 1e-7 ≤ e.eccentricity)
    (phi : ℝ) :
    deriv (fun phi => e.authalicIntegral (Real.sin phi)) phi = 2 * e.density phi :=
  (he.hasDerivAt_authalicIntegral_sin hecc phi).deriv

/-! ## Corrections -/

/-- There is nothing to correct exactly where the integral has the value it should have. -/
theorem Flattened.newtonStep_eq_zero_iff (he : e.Flattened) (hecc : 1e-7 ≤ e.eccentricity)
    (hphi : |phi| < Real.pi / 2) :
    Authalic.newtonStep e.eccentricitySq q phi = 0 ↔ e.authalicIntegral (Real.sin phi) = q := by
  have hslope : 2 * e.density phi ≠ 0 := mul_ne_zero two_ne_zero (he.density_pos hphi).ne'
  rw [he.newtonStep_eq hecc, div_eq_zero_iff, or_iff_left hslope, sub_eq_zero, eq_comm]

/-- The integral tells latitudes between the poles apart. -/
lemma Flattened.authalicIntegral_sin_injOn (he : e.Flattened) :
    Set.InjOn (fun phi => e.authalicIntegral (Real.sin phi))
      (Set.Icc (-(Real.pi / 2)) (Real.pi / 2)) := by
  intro phi hphi psi hpsi h
  have hsin := he.authalicIntegral_strictMonoOn.injOn (Real.sin_mem_Icc phi)
    (Real.sin_mem_Icc psi) h
  exact Real.injOn_sin hphi hpsi hsin

/-- What the closed form makes of a latitude needs no correction there, and only there. -/
lemma Flattened.newtonStep_authalic_eq_zero_iff (he : e.Flattened)
    (hecc : 1e-7 ≤ e.eccentricity) (hseries : e.usesSeries = false)
    (hroot : |root| < Real.pi / 2) (hphi : |phi| < Real.pi / 2) :
    Authalic.newtonStep e.eccentricitySq (Real.sin (e.authalic root) * e.poleIntegral) phi = 0 ↔
      phi = root := by
  have hmem {t : ℝ} (ht : |t| < Real.pi / 2) : t ∈ Set.Icc (-(Real.pi / 2)) (Real.pi / 2) :=
    abs_le.mp ht.le
  have hcos : Real.cos root ≠ 0 := (Real.cos_pos_of_mem_Ioo (abs_lt.mp hroot)).ne'
  rw [he.sin_authalic_mul hseries hcos, he.newtonStep_eq_zero_iff hecc hphi]
  exact he.authalicIntegral_sin_injOn.eq_iff (hmem hphi) (hmem hroot)

/-- Away from the poles one step of the iteration is one correction, negligible or not. -/
lemma refine_one (eccentricitySq q : ℝ) (hpole : 1e-12 ≤ Real.pi / 2 - |phi|) :
    Authalic.refine eccentricitySq q 1 phi =
      phi + Authalic.newtonStep eccentricitySq q phi := by
  simp only [Authalic.refine, Exact.quarterTurn_eq, Exact.abs_eq, Exact.ofScientific_eq,
    if_neg (not_lt.mpr hpole), Exact.isFinite_eq, if_true, ite_self]

/-! ## The whole -/

/-- **The iteration solves the equation of the authalic integral.**  A correction is what the
integral lacks, divided by the derivative of the integral, and vanishes exactly where nothing is
lacking.  So where the value is that of the closed form at some latitude, that latitude is the only
one between the poles that is not corrected; the iteration stays there for any number of steps, and
away from the poles one step of it moves every other latitude. -/
theorem Flattened.newton_solves_integral (he : e.Flattened) (hecc : 1e-7 ≤ e.eccentricity) :
    (∀ qp xi phi : ℝ, |phi| < Real.pi / 2 →
      let integral := fun phi => Authalic.integral (Real.sin phi) e.eccentricity
      let correction := Authalic.newtonStep e.eccentricitySq (Real.sin xi * qp) phi
      0 < deriv integral phi ∧
        correction = (qp * Real.sin xi - integral phi) / deriv integral phi ∧
        (correction = 0 ↔ integral phi = qp * Real.sin xi)) ∧
      (0.01 ≤ e.thirdFlattening → ∀ root : ℝ, |root| < Real.pi / 2 →
        let q := Real.sin (e.authalic root) * e.poleIntegral
        (∀ phi : ℝ, |phi| < Real.pi / 2 →
          (phi + Authalic.newtonStep e.eccentricitySq q phi = phi ↔ phi = root)) ∧
        (∀ steps, Authalic.refine e.eccentricitySq q steps root = root) ∧
        ∀ phi : ℝ, 1e-12 ≤ Real.pi / 2 - |phi| →
          (Authalic.refine e.eccentricitySq q 1 phi = phi ↔ phi = root)) := by
  constructor
  · intro qp xi phi hphi integral correction
    have hslope : deriv integral phi = 2 * e.density phi :=
      he.deriv_authalicIntegral_sin hecc phi
    have hvalue : integral phi = e.authalicIntegral (Real.sin phi) := rfl
    rw [hslope, hvalue, mul_comm qp]
    exact ⟨mul_pos two_pos (he.density_pos hphi), he.newtonStep_eq hecc _ _,
      he.newtonStep_eq_zero_iff hecc hphi⟩
  · intro hthird root hroot q
    have hseries := usesSeries_eq_false hthird
    have hfixed {phi : ℝ} (hphi : |phi| < Real.pi / 2) :
        phi + Authalic.newtonStep e.eccentricitySq q phi = phi ↔ phi = root := by
      rw [add_eq_left]
      exact he.newtonStep_authalic_eq_zero_iff hecc hseries hroot hphi
    refine ⟨fun phi => hfixed, fun steps => ?_, fun phi hpole => ?_⟩
    · exact refine_of_newtonStep_eq_zero (add_eq_left.mp ((hfixed hroot).mpr rfl)) steps
    · have hpositive : (0 : ℝ) < 1e-12 := by norm_num
      rw [refine_one _ _ hpole]
      exact hfixed (by linarith)

/-- Half the height of a sphere, and the authalic latitude of one radian: the correction vanishes
there and not at half a radian, and ten steps leave one radian alone. -/
theorem newton_solves_integral_half_flattened :
    let e : Ellipsoid ℝ := ⟨1, 1 / 2⟩
    let q := Real.sin (e.authalic 1) * e.poleIntegral
    0 < deriv (fun phi => Authalic.integral (Real.sin phi) e.eccentricity) 1 ∧
      Authalic.newtonStep e.eccentricitySq q 1 = 0 ∧
      Authalic.newtonStep e.eccentricitySq q (1 / 2) ≠ 0 ∧
      Authalic.refine e.eccentricitySq q Authalic.maxSteps 1 = 1 := by
  intro e q
  have hpi := Real.pi_gt_three
  have hthird : 0.01 ≤ e.thirdFlattening := by norm_num [e, thirdFlattening]
  have hecc := le_eccentricity (by norm_num [e]) hthird
  have hone : |(1 : ℝ)| < Real.pi / 2 := by rw [abs_one]; linarith
  have hhalf : |(1 / 2 : ℝ)| < Real.pi / 2 := by rw [abs_of_pos one_half_pos]; linarith
  obtain ⟨hstep, hiteration⟩ := flattened_half.newton_solves_integral hecc
  obtain ⟨hfixed, hstays, -⟩ := hiteration hthird 1 hone
  refine ⟨(hstep 0 0 1 hone).1, add_eq_left.mp ((hfixed 1 hone).mpr rfl), fun hzero => ?_,
    hstays Authalic.maxSteps⟩
  have hsame := (hfixed (1 / 2) hhalf).mp (add_eq_left.mpr hzero)
  norm_num at hsame

end Ellipsoid

end EqualArea
