import EqualArea.Proofs.Area.Scale
import EqualArea.Proofs.Ellipsoid.Mapping
import EqualArea.Proofs.Sphere.Mapping

/-!
# The areal scale of the mappings

Both mappings to the plane have the areal scale of the surface they map.

* `Ellipsoid.density` — the area of longitude and latitude on an ellipsoid of unit semimajor axis,
  and `Ellipsoid.radii_mul_cos`, by which it is that of the two radii of curvature.
* `Projection.HasDensity` — what it means for a mapping to have an areal scale.
* `Projection.forwardSphere_hasDensity`, `Projection.forwardEllipsoid_hasDensity` — the mappings
  have the density of the sphere and of the ellipsoid.

**Design.**  A mapping fails at some points, so its derivative is that of a formula which gives
its value wherever there is one.  The formula of a polar aspect leaves out the points that are
taken for the pole, where the mapping is constant.
-/

namespace EqualArea

namespace Ellipsoid

/-- The area of a unit of longitude and latitude, on an ellipsoid of unit semimajor axis. -/
noncomputable def density (e : Ellipsoid ℝ) (phi : ℝ) : ℝ :=
  (1 - e.eccentricitySq) * Real.cos phi / e.curvatureTerm phi ^ 2

variable {e : Ellipsoid ℝ}

lemma density_of_sphere (h : e.eccentricitySq = 0) (phi : ℝ) : e.density phi = Real.cos phi := by
  have hterm : e.curvatureTerm phi = 1 := by simp [curvatureTerm, h]
  rw [density, hterm, h]
  ring

lemma Flattened.curvatureTerm_pos (he : e.Flattened) (phi : ℝ) : 0 < e.curvatureTerm phi := by
  have h := Authalic.one_sub_mul_pos he.pos.le he.lt_one (Real.sin_mem_Icc phi)
  rw [mul_assoc, mul_comm] at h
  exact h

lemma density_nonneg (he : e.eccentricitySq < 1) {phi : ℝ} (hcos : 0 ≤ Real.cos phi) :
    0 ≤ e.density phi :=
  div_nonneg (mul_nonneg (sub_nonneg.mpr he.le) hcos) (sq_nonneg _)

/-- The radii of curvature measure a unit of latitude and a unit of longitude on the equator. -/
theorem radii_mul_cos (he : e.flattening = 0 ∨ e.flattening ≠ 0 ∧ e.Flattened) (phi : ℝ) :
    e.meridianRadius phi * e.primeVerticalRadius phi * Real.cos phi =
      e.semimajor ^ 2 * e.density phi := by
  rcases he with hsphere | ⟨hne, he⟩
  · have hzero : e.eccentricitySq = 0 := by simp [eccentricitySq, hsphere]
    have hsphere' : e.isSphere = true := by simp [isSphere, hsphere]
    rw [density_of_sphere hzero]
    simp only [meridianRadius, primeVerticalRadius, hsphere', if_true]
    ring
  · have hsphere : e.isSphere = false := by simp [isSphere, hne]
    have hpos := he.curvatureTerm_pos phi
    have hpow : e.curvatureTerm phi ^ (1.5 : ℝ) * Real.sqrt (e.curvatureTerm phi) =
        e.curvatureTerm phi ^ 2 := by
      rw [Real.sqrt_eq_rpow, ← Real.rpow_add hpos, ← Real.rpow_natCast]
      norm_num
    have hradii : e.meridianRadius phi * e.primeVerticalRadius phi =
        e.semimajor * (1 - e.eccentricitySq) / e.curvatureTerm phi ^ (1.5 : ℝ) *
          (e.semimajor / Real.sqrt (e.curvatureTerm phi)) := by
      simp only [meridianRadius, primeVerticalRadius, hsphere]
      rfl
    rw [hradii, div_mul_div_comm, hpow, density]
    ring

end Ellipsoid

namespace Projection

variable {p : Projection ℝ} {s : Spheroid ℝ} {e : Ellipsoid ℝ} {F : Frame}

/-- Wherever a mapping has a value at a regular latitude, the value is that of one formula, and
the formula has the given areal scale there. -/
def HasDensity (f : ℝ → ℝ → Except Refusal (Coordinate ℝ)) (regular : ℝ → Prop)
    (density : ℝ → ℝ) : Prop :=
  ∃ g : ℝ × ℝ → ℝ × ℝ, ∀ lambda phi c, f lambda phi = .ok c → regular phi →
    g (lambda, phi) = (c.first, c.second) ∧
      (Real.cos phi ≠ 0 → HasArealScale g (density phi) (lambda, phi))

/-! ## The sphere -/

lemma forwardSphere_hasDensity_of_frame (hF : p.HasFrame F) :
    HasDensity p.forwardSphere (fun _ => True) Real.cos := by
  refine ⟨fun v => ((F.sight v.1 v.2).image.first, (F.sight v.1 v.2).image.second), ?_⟩
  intro lambda phi c hc _
  rw [forwardSphere_of_frame hF] at hc
  split_ifs at hc with hup
  have hup' : -1 < (F.sight lambda phi).up := by linarith [tolerance_pos]
  obtain rfl := Except.ok.inj hc
  exact ⟨rfl, fun _ => F.hasArealScale_image lambda phi hup'⟩

lemma hasDerivAt_chord (sigma phi : ℝ) :
    HasDerivAt (fun phi => Sight.chord (Real.pi / 2 + sigma * phi))
      (sigma * Real.cos ((Real.pi / 2 + sigma * phi) / 2)) phi := by
  have hangle : HasDerivAt (fun phi => (Real.pi / 2 + sigma * phi) / 2) (sigma * 1 / 2) phi :=
    (((hasDerivAt_id phi).const_mul sigma).const_add (Real.pi / 2)).div_const 2
  refine (hangle.sin.const_mul 2).congr_deriv ?_
  ring

lemma forwardSphere_hasDensity_of_pole {sigma : ℝ} (hpole : p.HasPole sigma) :
    HasDensity p.forwardSphere (fun _ => True) Real.cos := by
  refine ⟨fun v => (Sight.chord (Real.pi / 2 + sigma * v.2) * Real.sin v.1,
    sigma * (Sight.chord (Real.pi / 2 + sigma * v.2) * Real.cos v.1)), ?_⟩
  intro lambda phi c hc _
  rw [forwardSphere_polar hpole] at hc
  split_ifs at hc with hantipode
  obtain rfl := Except.ok.inj hc
  refine ⟨rfl, fun _ => ?_⟩
  have hsigma := hpole.mul_self
  have hdouble : Real.cos phi = 2 * Real.sin ((Real.pi / 2 + sigma * phi) / 2) *
      Real.cos ((Real.pi / 2 + sigma * phi) / 2) := by
    rw [← Real.sin_two_mul, mul_div_cancel₀ _ two_ne_zero, add_comm, Real.sin_add_pi_div_two]
    cases hpole <;> simp
  obtain ⟨J, hJ, hdet⟩ := hasArealScale_polar (hasDerivAt_chord sigma phi) sigma lambda
  refine ⟨J, hJ, hdet.trans ?_⟩
  rw [hdouble, Sight.chord]
  linear_combination 2 * Real.sin ((Real.pi / 2 + sigma * phi) / 2) *
    Real.cos ((Real.pi / 2 + sigma * phi) / 2) * hsigma

/-- The mapping of the sphere keeps areas. -/
theorem forwardSphere_hasDensity
    (hF : p.aspect = .equatorial ∨ p.aspect = .oblique → ∃ F, p.HasFrame F) :
    HasDensity p.forwardSphere (fun _ => True) Real.cos := by
  rcases p.hasPole_or with ⟨sigma, hpole⟩ | hdisc
  · exact forwardSphere_hasDensity_of_pole hpole
  · obtain ⟨F, hF⟩ := hF hdisc
    exact forwardSphere_hasDensity_of_frame hF

/-! ## The ellipsoid -/

/-- The derivative of the authalic latitude, by the constants of a projection. -/
lemma hasDerivAt_authalicLatitude (he : e.Flattened) (hof : s.Of e) (hflat : e.flattening < 1)
    (hthird : 0.01 ≤ e.thirdFlattening) {phi : ℝ} (hcos : Real.cos phi ≠ 0) :
    ∃ slope, HasDerivAt s.authalicLatitude slope phi ∧
      slope * Real.cos (s.authalicLatitude phi) * s.poleIntegral = 2 * e.density phi := by
  obtain ⟨slope, hslope, hdensity⟩ := he.hasDerivAt_authalic hflat hthird hcos
  have hfun : s.authalicLatitude = e.authalic := funext hof.authalicLatitude_eq
  refine ⟨slope, hfun ▸ hslope, ?_⟩
  rw [hfun, hof.poleIntegral_eq, hdensity, Ellipsoid.density]
  ring

lemma forwardEllipsoid_hasDensity_of_frame (he : e.Flattened) (hflat : e.flattening < 1)
    (hthird : 0.01 ≤ e.thirdFlattening) (hs : p.spheroid? = some s) (hof : s.Of e)
    (hfitted : s.Fitted) (hF : p.HasFrame F) :
    HasDensity p.forwardEllipsoid (fun phi => ¬p.TakenForPole phi) e.density := by
  refine ⟨fun v => (
    s.authalicRadius * s.stretch * (F.sight v.1 (s.authalicLatitude v.2)).image.first,
    s.authalicRadius / s.stretch * (F.sight v.1 (s.authalicLatitude v.2)).image.second), ?_⟩
  intro lambda phi c hc _
  rw [forwardEllipsoid_of_frame hs hfitted hF] at hc
  split_ifs at hc with hup
  have hup' : -1 < (F.sight lambda (s.authalicLatitude phi)).up := by linarith [tolerance_pos]
  obtain rfl := Except.ok.inj hc
  refine ⟨rfl, fun hcos => ?_⟩
  obtain ⟨slope, hslope, hdensity⟩ := hasDerivAt_authalicLatitude he hof hflat hthird hcos
  have hstretch := hfitted.stretch_ne_zero
  have hsphere := (F.hasArealScale_image lambda (s.authalicLatitude phi) hup').comp
    (hasDerivAt_id lambda) hslope
  obtain ⟨J, hJ, hdet⟩ := hsphere.map
    ((hasDerivAt_id _).const_mul (s.authalicRadius * s.stretch))
    ((hasDerivAt_id _).const_mul (s.authalicRadius / s.stretch))
  refine ⟨J, hJ, hdet.trans ?_⟩
  field_simp
  linear_combination slope * Real.cos (s.authalicLatitude phi) / 2 * hfitted.radius_sq +
    hdensity / 2

lemma forwardEllipsoid_hasDensity_of_pole {sigma : ℝ} (he : e.Flattened)
    (hflat : e.flattening < 1) (hthird : 0.01 ≤ e.thirdFlattening) (hs : p.spheroid? = some s)
    (hof : s.Of e) (hpole : p.HasPole sigma) :
    HasDensity p.forwardEllipsoid (fun phi => ¬p.TakenForPole phi) e.density := by
  refine ⟨fun v => (
    Real.sqrt (s.poleIntegral * (1 + sigma * Real.sin (s.authalicLatitude v.2))) * Real.sin v.1,
    sigma * (Real.sqrt (s.poleIntegral * (1 + sigma * Real.sin (s.authalicLatitude v.2))) *
      Real.cos v.1)), ?_⟩
  intro lambda phi c hc hregular
  rw [takenForPole_iff hs hpole] at hregular
  rw [forwardEllipsoid_polar hs hpole, if_neg hregular] at hc
  split_ifs at hc with hantipode
  obtain rfl := Except.ok.inj hc
  refine ⟨rfl, fun hcos => ?_⟩
  obtain ⟨slope, hslope, hdensity⟩ := hasDerivAt_authalicLatitude he hof hflat hthird hcos
  have hsigma := hpole.mul_self
  have hpos : 0 < s.poleIntegral * (1 + sigma * Real.sin (s.authalicLatitude phi)) :=
    lt_of_lt_of_le poleLimit_pos (not_lt.mp hregular)
  have hroot := Real.sqrt_pos.mpr hpos
  have hsquared : HasDerivAt
      (fun phi => s.poleIntegral * (1 + sigma * Real.sin (s.authalicLatitude phi)))
      (s.poleIntegral * (sigma * (Real.cos (s.authalicLatitude phi) * slope))) phi :=
    ((hslope.sin.const_mul sigma).const_add 1).const_mul s.poleIntegral
  obtain ⟨J, hJ, hdet⟩ := hasArealScale_polar (hsquared.sqrt hpos.ne') sigma lambda
  refine ⟨J, hJ, hdet.trans ?_⟩
  have hcancel : ∀ r d : ℝ, 0 < r → r * (d / (2 * r)) = d / 2 := by
    intro r d hr
    field_simp
  rw [hcancel _ _ hroot]
  linear_combination slope * Real.cos (s.authalicLatitude phi) * s.poleIntegral / 2 * hsigma +
    hdensity / 2

/-- The mapping of the ellipsoid keeps areas. -/
theorem forwardEllipsoid_hasDensity (he : e.Flattened) (hflat : e.flattening < 1)
    (hthird : 0.01 ≤ e.thirdFlattening) (hs : p.spheroid? = some s) (hof : s.Of e)
    (hframe : p.aspect = .equatorial ∨ p.aspect = .oblique → s.Fitted ∧ ∃ F, p.HasFrame F) :
    HasDensity p.forwardEllipsoid (fun phi => ¬p.TakenForPole phi) e.density := by
  rcases p.hasPole_or with ⟨sigma, hpole⟩ | hdisc
  · exact forwardEllipsoid_hasDensity_of_pole he hflat hthird hs hof hpole
  · obtain ⟨hfitted, F, hF⟩ := hframe hdisc
    exact forwardEllipsoid_hasDensity_of_frame he hflat hthird hs hof hfitted hF

end Projection

end EqualArea
