import EqualArea.Proofs.Ellipsoid.Constants
import EqualArea.Proofs.Guarded.Authalic

/-!
# The construction of a projection in guarded numbers

Every projection of a valid ellipsoid is built without leaving the domain of an operation.

* `Guarded.ofEllipsoid_of` — the constants for an ellipsoid.
* `Guarded.centredAt_of` — the projection, whatever the centre.
-/

namespace EqualArea

namespace Guarded

variable {v : Verdict} {e : Ellipsoid ℝ} {s : Spheroid ℝ} {latitude : ℝ}

lemma spheroid_authalicLatitude_of (he : e.Flattened) (hof : s.Of e) (phi : ℝ) :
    (s.map of : Spheroid (Guarded v)).authalicLatitude (of phi) = of (s.authalicLatitude phi) := by
  rw [hof.authalicLatitude_eq, ← authalicLatitude_of he, ← hof.series_eq, ← hof.poleIntegral_eq,
    ← hof.ellipsoid_eq]
  rfl

lemma spheroid_geographicLatitude_of (he : e.Flattened) (hof : s.Of e) (authalic : ℝ) :
    (s.map of : Spheroid (Guarded v)).geographicLatitude (of authalic) =
      of (s.geographicLatitude authalic) := by
  have h := geographicLatitude_of (v := v) he authalic
  rw [← hof.series_eq, ← hof.poleIntegral_eq, ← hof.ellipsoid_eq] at h
  exact h

/-! ## The constants -/

lemma polar_of (he : e.Flattened) :
    Spheroid.polar (e.map of : Ellipsoid (Guarded v)) = (Spheroid.polar e).map of := by
  unfold Spheroid.polar Spheroid.map
  simp only [poleIntegral_of he, eccentricitySq_of, authalicCoefficients_of he, ofNat_eq,
    ofScientific_eq, of_sub, of_div (sub_pos.mpr he.lt_one).ne']

lemma radiusOfArea_of (h : 0 ≤ s.poleIntegral) :
    (s.map of : Spheroid (Guarded v)).radiusOfArea = of s.radiusOfArea := by
  have hhalf : 0 ≤ 0.5 * s.poleIntegral := by positivity
  exact of_sqrt hhalf

lemma ofSphere_of (aspect : Aspect) (latitude : ℝ) :
    (Projection.ofSphere aspect (of latitude) : Projection (Guarded v)) =
      (Projection.ofSphere aspect latitude).map of := by
  unfold Projection.ofSphere Projection.map
  simp only [of_sin, of_cos, ofNat_eq, ← apply_ite of]
  rfl

/-- The stretch of an oblique aspect is a quotient by the radius of a parallel that is at no
pole. -/
lemma ofEllipsoid_of (he : e.Flattened) {aspect : Aspect}
    (haspect : Aspect.ofLatitude latitude = .ok aspect) :
    Projection.ofEllipsoid aspect (of latitude) (e.map of : Ellipsoid (Guarded v)) =
      (Projection.ofEllipsoid aspect latitude e).map of := by
  have hpole : 0 ≤ (Spheroid.polar e).poleIntegral := he.poleIntegral_pos.le
  obtain ⟨hradius, -⟩ := Spheroid.radiusOfArea_spec he (Spheroid.polar_of e)
  -- Only the oblique aspect divides by what could vanish at a pole.
  cases aspect with
  | northPolar => simp only [Projection.ofEllipsoid, polar_of he]; rfl
  | southPolar => simp only [Projection.ofEllipsoid, polar_of he]; rfl
  | equatorial =>
    simp only [Projection.ofEllipsoid, polar_of he, radiusOfArea_of hpole, ofNat_eq,
      ofScientific_eq, of_div hradius.ne']
    rfl
  | oblique =>
    have hcos : (Arith.cos latitude : ℝ) ≠ 0 := Aspect.cos_ne_zero_of_oblique haspect
    have hcurvature : (0 : ℝ) < 1 - e.eccentricitySq * Arith.sin latitude * Arith.sin latitude :=
      Authalic.one_sub_mul_pos he.pos.le he.lt_one (Real.sin_mem_Icc latitude)
    have hroot : (Arith.sqrt (1 - e.eccentricitySq * Arith.sin latitude * Arith.sin latitude) : ℝ) ≠
      0 := (Real.sqrt_pos.mpr hcurvature).ne'
    have hauthalic : (Arith.cos ((Spheroid.polar e).authalicLatitude latitude) : ℝ) ≠ 0 := by
      rw [(Spheroid.polar_of e).authalicLatitude_eq]
      exact he.cos_authalic_ne_zero hcos
    have hdenominator := mul_ne_zero (mul_ne_zero hroot hradius.ne') hauthalic
    simp only [Projection.ofEllipsoid, polar_of he, radiusOfArea_of hpole, ofNat_eq, of_sin, of_cos,
      eccentricitySq_of, of_mul, of_sub, spheroid_authalicLatitude_of he (Spheroid.polar_of e),
      of_sqrt hcurvature.le, of_div hdenominator, of_div (div_ne_zero hcos hdenominator)]
    rfl

/-! ## The projection -/

@[simp] lemma tolerance_of : (tolerance : Guarded v) = of tolerance := rfl

lemma ofLatitude_of {aspect : Aspect} (h : Aspect.ofLatitude latitude = .ok aspect) :
    Aspect.ofLatitude (of latitude : Guarded v) = .ok aspect := by
  simp only [Aspect.ofLatitude, Exact.isNaN_eq, Bool.false_eq_true, false_or] at h
  simp only [Aspect.ofLatitude, of_isNaN, Exact.isNaN_eq, Bool.false_eq_true, false_or, of_abs,
    quarterTurn_eq, tolerance_of, ofNat_eq, of_add, of_sub, of_lt]
  split_ifs at h ⊢ <;> exact congrArg Except.ok (Except.ok.inj h)

/-- A projection that can be built over the real numbers is built of them in guarded numbers. -/
theorem centredAt_of (he : e.eccentricitySq ∈ Set.Ico (0 : ℝ) 1) {p : Projection ℝ}
    (hp : Projection.centredAt latitude e = .ok p) :
    Projection.centredAt (of latitude) (e.map of : Ellipsoid (Guarded v)) = .ok (p.map of) := by
  obtain ⟨aspect, haspect, rfl⟩ := Projection.centredAt_eq_ok.mp hp
  unfold Projection.centredAt
  rw [ofLatitude_of haspect]
  change Except.ok (if _ then _ else _) = _
  simp only [eccentricitySq_of, ofNat_eq, of_beq, Exact.beq_iff]
  by_cases hsphere : e.eccentricitySq = 0
  · rw [if_pos hsphere, if_pos hsphere, ofSphere_of]
  · have hflattened : e.Flattened := ⟨lt_of_le_of_ne he.1 (Ne.symm hsphere), he.2⟩
    rw [if_neg hsphere, if_neg hsphere, ofEllipsoid_of hflattened haspect]

end Guarded

end EqualArea
