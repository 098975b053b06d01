import EqualArea.Proofs.Authalic.Latitude
import EqualArea.Proofs.Construction

/-!
# The constants of a projection of an ellipsoid

What the constants have in common, whatever the centre they were built for.

* `Spheroid.Of` — the constants that do not depend on the centre are those of the ellipsoid.
* `Spheroid.Fitted` — the scale factors of an equatorial or oblique projection are the radius of
  the authalic sphere, stretched to the east and shrunk to the north by the same ratio.
* `Projection.exists_spheroid` — both hold of every projection that can be built.
-/

namespace EqualArea

/-- The constants are those of an ellipsoid, as far as they do not depend on the centre. -/
structure Spheroid.Of (s : Spheroid ℝ) (e : Ellipsoid ℝ) : Prop where
  ellipsoid_eq : s.ellipsoid = e
  poleIntegral_eq : s.poleIntegral = e.poleIntegral
  series_eq : s.series = e.authalicCoefficients

/-- The scale factors of an equatorial or oblique projection fit together. -/
structure Spheroid.Fitted (s : Spheroid ℝ) : Prop where
  radius_pos : 0 < s.authalicRadius
  /-- A sphere of this radius has the area of the ellipsoid. -/
  radius_sq : 2 * s.authalicRadius ^ 2 = s.poleIntegral
  stretch_ne_zero : s.stretch ≠ 0
  eastFactor_eq : s.eastFactor = s.authalicRadius * s.stretch
  northFactor_eq : s.northFactor = s.authalicRadius / s.stretch

namespace Spheroid

variable {s : Spheroid ℝ} {e : Ellipsoid ℝ}

lemma Of.authalicLatitude_eq (h : s.Of e) (phi : ℝ) : s.authalicLatitude phi = e.authalic phi := by
  unfold authalicLatitude Ellipsoid.authalic
  rw [h.ellipsoid_eq, h.poleIntegral_eq, h.series_eq]
  rfl

lemma polar_of (e : Ellipsoid ℝ) : (Spheroid.polar e).Of e := ⟨rfl, rfl, rfl⟩

lemma radiusOfArea_eq_sqrt (s : Spheroid ℝ) :
    s.radiusOfArea = Real.sqrt (s.poleIntegral / 2) := by
  change Real.sqrt (0.5 * s.poleIntegral) = _
  congr 1
  ring

/-- The sphere of the same area. -/
lemma radiusOfArea_spec (he : e.Flattened) (h : s.Of e) :
    0 < s.radiusOfArea ∧ 2 * s.radiusOfArea ^ 2 = s.poleIntegral := by
  have hpole : 0 < s.poleIntegral := h.poleIntegral_eq ▸ he.poleIntegral_pos
  rw [radiusOfArea_eq_sqrt]
  refine ⟨Real.sqrt_pos.mpr (by positivity), ?_⟩
  rw [Real.sq_sqrt (by positivity)]
  ring

/-- The radius an equatorial or oblique projection keeps is that of the sphere of the same area. -/
lemma Fitted.radiusOfArea_eq (hs : s.Fitted) (he : e.Flattened) (h : s.Of e) :
    s.radiusOfArea = s.authalicRadius := by
  obtain ⟨hpos, hsq⟩ := radiusOfArea_spec he h
  have hsame := hs.radius_sq
  rw [← sq_eq_sq₀ hpos.le hs.radius_pos.le]
  linarith

end Spheroid

/-- An oblique centre is at no pole. -/
lemma Aspect.cos_ne_zero_of_oblique {latitude : ℝ}
    (h : Aspect.ofLatitude latitude = .ok .oblique) : Real.cos latitude ≠ 0 := by
  obtain ⟨-, hpole, hhigh⟩ := Aspect.oblique_bounds h
  have hpi := Real.pi_gt_three
  have htolerance := tolerance_lt_one
  have htolerance0 := tolerance_pos
  rw [← Real.cos_abs]
  rcases lt_or_ge |latitude| (Real.pi / 2) with hlt | hge
  · exact (Real.cos_pos_of_mem_Ioo ⟨by linarith [abs_nonneg latitude], hlt⟩).ne'
  · have hgt : Real.pi / 2 < |latitude| := by
      rw [abs_of_nonneg (by linarith)] at hpole
      linarith
    exact (Real.cos_neg_of_pi_div_two_lt_of_lt hgt (by linarith)).ne

namespace Projection

variable {p : Projection ℝ} {e : Ellipsoid ℝ} {latitude : ℝ}

lemma ofEllipsoid_equatorial_fitted (he : e.Flattened) (latitude : ℝ) {s : Spheroid ℝ}
    (hs : (ofEllipsoid .equatorial latitude e).spheroid? = some s) : s.Of e ∧ s.Fitted := by
  obtain ⟨hpos, hsq⟩ := Spheroid.radiusOfArea_spec he (Spheroid.polar_of e)
  obtain rfl := Option.some.inj hs
  refine ⟨⟨rfl, rfl, rfl⟩, hpos, hsq, (one_div_pos.mpr hpos).ne', ?_, ?_⟩
  · change (1 : ℝ) = (Spheroid.polar e).radiusOfArea * (1 / (Spheroid.polar e).radiusOfArea)
    field_simp
  · change 0.5 * (Spheroid.polar e).poleIntegral =
      (Spheroid.polar e).radiusOfArea / (1 / (Spheroid.polar e).radiusOfArea)
    rw [← hsq]
    field_simp
    norm_num

/-- The radius of the parallel of an oblique centre, as a fraction of the semimajor axis, and that
of its image on the sphere of the same area are no zeros. -/
lemma ofEllipsoid_oblique_fitted (he : e.Flattened) (hcos : Real.cos latitude ≠ 0)
    {s : Spheroid ℝ} (hs : (ofEllipsoid .oblique latitude e).spheroid? = some s) :
    s.Of e ∧ s.Fitted := by
  obtain ⟨hpos, hsq⟩ := Spheroid.radiusOfArea_spec he (Spheroid.polar_of e)
  have hauthalic := he.cos_authalic_ne_zero hcos
  have hcurvature : 0 < 1 - e.eccentricitySq * Real.sin latitude * Real.sin latitude :=
    Authalic.one_sub_mul_pos he.pos.le he.lt_one (Real.sin_mem_Icc latitude)
  obtain rfl := Option.some.inj hs
  refine ⟨⟨rfl, rfl, rfl⟩, hpos, hsq, ?_, rfl, rfl⟩
  exact div_ne_zero hcos
    (mul_ne_zero (mul_ne_zero (Real.sqrt_pos.mpr hcurvature).ne' hpos.ne') hauthalic)

lemma centredAt_zero (he : e.Flattened) :
    centredAt 0 e = .ok (ofEllipsoid .equatorial 0 e) :=
  centredAt_eq_ok.mpr ⟨_, Aspect.ofLatitude_zero, by rw [if_neg he.pos.ne']⟩

lemma centredAt_one (he : e.Flattened) : centredAt 1 e = .ok (ofEllipsoid .oblique 1 e) :=
  centredAt_eq_ok.mpr ⟨_, Aspect.ofLatitude_one, by rw [if_neg he.pos.ne']⟩

lemma centredAt_pi_div_two (he : e.Flattened) :
    centredAt (Real.pi / 2) e = .ok (ofEllipsoid .northPolar (Real.pi / 2) e) := by
  have hpos := Real.pi_div_two_pos
  refine centredAt_eq_ok.mpr ⟨_, Aspect.ofLatitude_of_pole (abs_of_pos hpos), ?_⟩
  rw [if_neg he.pos.ne', if_neg hpos.le.not_gt]

/-- A projection of an ellipsoid keeps the constants of the ellipsoid; unless it is polar, it has
a frame, and its scale factors fit. -/
theorem exists_spheroid (he : e.Flattened) (hp : centredAt latitude e = .ok p) :
    ∃ s, p.spheroid? = some s ∧ s.Of e ∧
      (p.aspect = .equatorial ∨ p.aspect = .oblique → s.Fitted ∧ ∃ F, p.HasFrame F) := by
  obtain ⟨aspect, haspect, rfl⟩ := centredAt_eq_ok.mp hp
  rw [if_neg he.pos.ne']
  cases aspect with
  | northPolar => exact ⟨_, rfl, Spheroid.polar_of e, fun h => by simp [ofEllipsoid] at h⟩
  | southPolar => exact ⟨_, rfl, Spheroid.polar_of e, fun h => by simp [ofEllipsoid] at h⟩
  | equatorial =>
    obtain ⟨hof, hfitted⟩ := ofEllipsoid_equatorial_fitted he latitude rfl
    exact ⟨_, rfl, hof, fun _ => ⟨hfitted, _, .equatorial rfl⟩⟩
  | oblique =>
    obtain ⟨hof, hfitted⟩ :=
      ofEllipsoid_oblique_fitted he (Aspect.cos_ne_zero_of_oblique haspect) rfl
    exact ⟨_, rfl, hof, fun _ => ⟨hfitted, _, .oblique rfl (Real.sin_sq_add_cos_sq _)⟩⟩

/-- A projection that keeps constants keeps those of an ellipsoid that is no sphere. -/
lemma spheroid_of_centredAt (he : e.eccentricitySq ∈ Set.Ico (0 : ℝ) 1)
    (hp : centredAt latitude e = .ok p) {s : Spheroid ℝ} (hs : p.spheroid? = some s) :
    e.Flattened ∧ s.Of e ∧ (p.aspect = .equatorial ∨ p.aspect = .oblique → s.Fitted) := by
  have hne : e.eccentricitySq ≠ 0 := by
    intro hsphere
    rw [spheroid?_eq_none hsphere hp] at hs
    cases hs
  have hflattened : e.Flattened := ⟨lt_of_le_of_ne he.1 hne.symm, he.2⟩
  obtain ⟨t, ht, hof, hframe⟩ := exists_spheroid hflattened hp
  have heq : t = s := Option.some.inj (ht.symm.trans hs)
  rw [heq] at hof hframe
  exact ⟨hflattened, hof, fun hdisc => (hframe hdisc).1⟩

/-- Every equatorial or oblique projection has a frame, sphere or not. -/
lemma exists_frame (he : e.eccentricitySq ∈ Set.Ico (0 : ℝ) 1)
    (hp : centredAt latitude e = .ok p)
    (hdisc : p.aspect = .equatorial ∨ p.aspect = .oblique) : ∃ F, p.HasFrame F := by
  by_cases hsphere : e.eccentricitySq = 0
  · exact (exists_frame_of_sphere hsphere hp hdisc).imp fun _ h => h.1
  · have hflattened : e.Flattened := ⟨lt_of_le_of_ne he.1 (Ne.symm hsphere), he.2⟩
    obtain ⟨_, -, -, hframe⟩ := exists_spheroid hflattened hp
    exact (hframe hdisc).2

/-- An oblique projection of a sphere keeps the cosine of the latitude of its centre. -/
lemma cosCentre_of_sphere (he : e.eccentricitySq = 0) (hp : centredAt latitude e = .ok p)
    (hoblique : p.aspect = .oblique) : p.cosCentre = Real.cos latitude := by
  obtain ⟨aspect, -, rfl⟩ := centredAt_eq_ok.mp hp
  rw [if_pos he] at hoblique ⊢
  exact if_pos hoblique

/-- An oblique projection of an ellipsoid keeps that of the authalic latitude of its centre. -/
lemma cosCentre_of_ellipsoid (he : e.Flattened) (hp : centredAt latitude e = .ok p)
    (hoblique : p.aspect = .oblique) : p.cosCentre = Real.cos (e.authalic latitude) := by
  obtain ⟨aspect, -, rfl⟩ := centredAt_eq_ok.mp hp
  rw [if_neg he.pos.ne'] at hoblique ⊢
  cases aspect <;> simp only [ofEllipsoid, reduceCtorEq] at hoblique
  rw [← (Spheroid.polar_of e).authalicLatitude_eq]
  rfl

/-- The cosine of an oblique centre, by which the mappings divide or multiply. -/
lemma cosCentre_ne_zero (he : e.eccentricitySq ∈ Set.Ico (0 : ℝ) 1)
    (hp : centredAt latitude e = .ok p) (h : p.aspect = .oblique) : p.cosCentre ≠ 0 := by
  obtain ⟨aspect, haspect, -⟩ := centredAt_eq_ok.mp hp
  have hcos : Real.cos latitude ≠ 0 := by
    rw [aspect_of_centredAt haspect hp] at h
    exact Aspect.cos_ne_zero_of_oblique (h ▸ haspect)
  by_cases hsphere : e.eccentricitySq = 0
  · rwa [cosCentre_of_sphere hsphere hp h]
  · have hflattened : e.Flattened := ⟨lt_of_le_of_ne he.1 (Ne.symm hsphere), he.2⟩
    rw [cosCentre_of_ellipsoid hflattened hp h]
    exact hflattened.cos_authalic_ne_zero hcos

/-- The axis of an equatorial or oblique projection points north, sphere or not, unless the centre
lies past a pole. -/
lemma exists_frame_cos_pos (he : e.eccentricitySq ∈ Set.Ico (0 : ℝ) 1)
    (hp : centredAt latitude e = .ok p)
    (hoblique : p.aspect = .oblique → |latitude| < Real.pi / 2)
    (hdisc : p.aspect = .equatorial ∨ p.aspect = .oblique) : ∃ F, p.HasFrame F ∧ 0 < F.cos := by
  by_cases hsphere : e.eccentricitySq = 0
  · exact (exists_frame_of_sphere hsphere hp hdisc).imp fun _ h => ⟨h.1, h.2 hoblique⟩
  · have hflattened : e.Flattened := ⟨lt_of_le_of_ne he.1 (Ne.symm hsphere), he.2⟩
    obtain ⟨aspect, -, rfl⟩ := centredAt_eq_ok.mp hp
    rw [if_neg hsphere] at hdisc hoblique ⊢
    cases aspect with
    | northPolar => simp [ofEllipsoid] at hdisc
    | southPolar => simp [ofEllipsoid] at hdisc
    | equatorial => exact ⟨_, .equatorial rfl, one_pos⟩
    | oblique =>
      refine ⟨_, .oblique rfl (Real.sin_sq_add_cos_sq _), ?_⟩
      change 0 < Real.cos ((Spheroid.polar e).authalicLatitude latitude)
      rw [(Spheroid.polar_of e).authalicLatitude_eq]
      exact hflattened.cos_authalic_pos (Real.cos_pos_of_mem_Ioo (abs_lt.mp (hoblique rfl)))

/-- An equatorial map is stretched by as much as the sphere of the same area is smaller. -/
lemma stretch_of_equatorial (he : e.Flattened) (hp : centredAt latitude e = .ok p)
    {s : Spheroid ℝ} (hs : p.spheroid? = some s) (h : p.aspect = .equatorial) :
    s.stretch = 1 / s.radiusOfArea := by
  obtain ⟨aspect, -, rfl⟩ := centredAt_eq_ok.mp hp
  rw [if_neg he.pos.ne'] at hs h
  cases aspect <;> simp only [ofEllipsoid, reduceCtorEq] at h
  obtain rfl := Option.some.inj hs
  rfl

/-- A polar map is true to scale at its centre without a stretch. -/
lemma stretch_of_pole (he : e.Flattened) (hp : centredAt latitude e = .ok p) {s : Spheroid ℝ}
    (hs : p.spheroid? = some s) {sigma : ℝ} (hpole : p.HasPole sigma) : s.stretch = 1 := by
  obtain ⟨aspect, -, rfl⟩ := centredAt_eq_ok.mp hp
  rw [if_neg he.pos.ne'] at hs hpole
  cases aspect with
  | northPolar =>
    obtain rfl := Option.some.inj hs
    rfl
  | southPolar =>
    obtain rfl := Option.some.inj hs
    rfl
  | equatorial => rcases hpole.aspect_eq with h | h <;> cases h
  | oblique => rcases hpole.aspect_eq with h | h <;> cases h

/-- The rim of a hemisphere is at least as far from the centre as the length of the semimajor
axis. -/
lemma one_le_radius_mul_sqrt_two (he : e.Flattened) {s : Spheroid ℝ} (hof : s.Of e)
    (hfitted : s.Fitted) :
    1 ≤ s.authalicRadius * Real.sqrt 2 := by
  have hone : 1 ≤ s.poleIntegral := hof.poleIntegral_eq ▸ he.one_le_poleIntegral
  have hsquare : (s.authalicRadius * Real.sqrt 2) ^ 2 = s.poleIntegral := by
    rw [mul_pow, Real.sq_sqrt zero_le_two, ← hfitted.radius_sq]
    ring
  have hpos : 0 < s.authalicRadius * Real.sqrt 2 :=
    mul_pos hfitted.radius_pos (Real.sqrt_pos.mpr two_pos)
  nlinarith

end Projection

end EqualArea
