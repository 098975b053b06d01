import EqualArea.Proofs.Ellipsoid.Mapping
import EqualArea.Proofs.Sphere.Mapping

/-!
# The domains of the inverse mappings

Which points of the plane are images of points of a sphere or an ellipsoid.

* `Projection.OnSphereMap`, `Projection.OnEllipsoidMap` — the regions of the plane.
* `Projection.DefinedExactlyOn` — a mapping that has a value on a region and refuses all else.
* `inverseSphere_domain`, `inverseEllipsoid_domain_of_frame`, `inverseEllipsoid_domain_of_pole` —
  the domains of the inverse mappings.
* `forwardSphere_onMap`, `forwardEllipsoid_onMap_of_frame`, `forwardEllipsoid_onMap_of_pole` — the
  forward mappings stay in them, at any longitude and any latitude.
* `inverse_domain` — both, for every projection that can be built.

**Design.**  The region of an ellipsoid is an ellipse under an equatorial or oblique aspect, since
the map is stretched, and a disc under a polar one.  That disc is larger than the image of the
ellipsoid by the tolerance, as the test for it is one of the sine of the latitude.
-/

namespace EqualArea

namespace Projection

open Sight (chord chord_sq)

variable {p : Projection ℝ} {e : Ellipsoid ℝ} {s : Spheroid ℝ} {F : Frame}
  {latitude lambda phi x y sigma : ℝ} {c : Coordinate ℝ}

/-- The map of the unit sphere, with its rim. -/
def OnSphereMap (x y : ℝ) : Prop := x ^ 2 + y ^ 2 ≤ 4

/-- The map of an ellipsoid, with its rim. -/
inductive OnEllipsoidMap (p : Projection ℝ) (s : Spheroid ℝ) (x y : ℝ) : Prop
  | ellipse (aspect : p.aspect = .equatorial ∨ p.aspect = .oblique)
      (inside : (x / s.stretch) ^ 2 + (y * s.stretch) ^ 2 ≤ 4 * s.authalicRadius ^ 2)
  | disc (aspect : p.aspect = .northPolar ∨ p.aspect = .southPolar)
      (inside : x ^ 2 + y ^ 2 ≤ (2 + tolerance) * s.poleIntegral)

/-- The mapping has a value on a region, and elsewhere the refusal of a point outside the domain. -/
def DefinedExactlyOn (f : ℝ → ℝ → Except Refusal (Coordinate ℝ)) (region : ℝ → ℝ → Prop)
    (refusal : Refusal) : Prop :=
  (refusal.fault : Fault ℝ) = .outsideDomain ∧ ∀ x y,
    ((∃ c, f x y = .ok c) ↔ region x y) ∧ (¬region x y → f x y = .error refusal)

/-- It is enough to know the value on the region and the refusal elsewhere. -/
lemma DefinedExactlyOn.of_cases {f : ℝ → ℝ → Except Refusal (Coordinate ℝ)}
    {region : ℝ → ℝ → Prop} {refusal : Refusal}
    (hfault : (refusal.fault : Fault ℝ) = .outsideDomain)
    (hinside : ∀ x y, region x y → ∃ c, f x y = .ok c)
    (houtside : ∀ x y, ¬region x y → f x y = .error refusal) :
    DefinedExactlyOn f region refusal := by
  refine ⟨hfault, fun x y => ⟨⟨?_, hinside x y⟩, houtside x y⟩⟩
  rintro ⟨c, hc⟩
  by_contra hregion
  rw [houtside x y hregion] at hc
  cases hc

/-! ## The sphere -/

lemma onSphereMap_iff : OnSphereMap x y ↔ Exact.hypot x y ≤ 2 := by
  have hsq := Exact.hypot_sq x y
  rw [OnSphereMap, ← hsq, ← sq_le_sq₀ (Exact.hypot_nonneg x y) zero_le_two]
  norm_num

/-- The inverse mapping of the sphere has a value on the closed disc of radius two. -/
theorem inverseSphere_domain (p : Projection ℝ) :
    DefinedExactlyOn p.inverseSphere OnSphereMap .offSphere := by
  refine .of_cases rfl (fun x y h => ?_) fun x y h => ?_
  · have hinside : ¬1 < Exact.hypot x y * 0.5 := by linarith [onSphereMap_iff.mp h]
    unfold inverseSphere
    simp only [Exact.hypot_eq, Exact.ofScientific_eq, if_neg hinside]
    cases p.aspect <;> exact ⟨_, rfl⟩
  · exact inverseSphere_outside (not_le.mp (mt onSphereMap_iff.mpr h))

/-- The forward mapping of the sphere stays in that disc. -/
theorem forwardSphere_onMap (hshape : (∃ sigma, p.HasPole sigma) ∨ ∃ F, p.HasFrame F)
    (h : p.forwardSphere lambda phi = .ok c) : OnSphereMap c.first c.second := by
  rcases hshape with ⟨sigma, hpole⟩ | ⟨F, hF⟩
  · rw [forwardSphere_polar hpole] at h
    split_ifs at h with hantipode
    rw [← Except.ok.inj h]
    have hchord := chord_sq (Real.pi / 2 + sigma * phi)
    have hcos := Real.neg_one_le_cos (Real.pi / 2 + sigma * phi)
    calc (chord (Real.pi / 2 + sigma * phi) * Real.sin lambda) ^ 2 +
          (sigma * (chord (Real.pi / 2 + sigma * phi) * Real.cos lambda)) ^ 2
        = chord (Real.pi / 2 + sigma * phi) ^ 2 := by
          linear_combination chord (Real.pi / 2 + sigma * phi) ^ 2 *
            (Real.sin_sq_add_cos_sq lambda + Real.cos lambda ^ 2 * hpole.mul_self)
      _ ≤ 4 := by linarith
  · rw [forwardSphere_of_frame hF] at h
    split_ifs at h with hantipode
    rw [← Except.ok.inj h, onSphereMap_iff]
    exact ((F.sight lambda phi).hypot_image_lt (by linarith [tolerance_pos])).le

/-! ## Equatorial and oblique aspects of an ellipsoid -/

lemma HasFrame.onEllipsoidMap_iff (hF : p.HasFrame F) (hfitted : s.Fitted) :
    p.OnEllipsoidMap s x y ↔ s.reach x y ≤ 2 := by
  have hradius := hfitted.radius_pos
  have hreach : 0 ≤ s.reach x y := Exact.hypot_nonneg _ _
  have hsq := Exact.hypot_sq (x / s.stretch) (y * s.stretch)
  have haspect : p.aspect = .equatorial ∨ p.aspect = .oblique := by
    cases hF with
    | equatorial h => exact .inl h
    | oblique h unit => exact .inr h
  have hregion : p.OnEllipsoidMap s x y ↔
      (x / s.stretch) ^ 2 + (y * s.stretch) ^ 2 ≤ 4 * s.authalicRadius ^ 2 := by
    refine ⟨fun h => ?_, .ellipse haspect⟩
    cases h with
    | ellipse aspect inside => exact inside
    | disc aspect inside => rcases haspect with h | h <;> simp [h] at aspect
  rw [hregion, ← hsq, hfitted.hypot_eq, mul_pow, mul_comm (4 : ℝ),
    mul_le_mul_iff_right₀ (pow_pos hradius 2), ← sq_le_sq₀ hreach zero_le_two]
  norm_num

/-- What is taken for the centre lies on the map. -/
lemma reach_le_of_centre (he : e.Flattened) (hof : s.Of e) (hfitted : s.Fitted)
    (hcentre : s.authalicRadius * s.reach x y < tolerance) : s.reach x y ≤ 2 := by
  have hradius := one_le_radius_mul_sqrt_two he hof hfitted
  have hreach : 0 ≤ s.reach x y := Exact.hypot_nonneg _ _
  have hroot : Real.sqrt 2 ≤ 2 := by
    rw [Real.sqrt_le_iff]
    norm_num
  have hhalf : 1 ≤ s.authalicRadius * 2 :=
    hradius.trans (mul_le_mul_of_nonneg_left hroot hfitted.radius_pos.le)
  nlinarith [tolerance_lt_one]

/-- The sine of a bearing is that of an angle, so the test of it never fails. -/
lemma abs_sinAuthalic_le_one (hfitted : s.Fitted) (hF : p.HasFrame F) {b : Bearing ℝ}
    (hb : p.bearing s x y = .ok (some b)) : |b.sinAuthalic| ≤ 1 := by
  rw [bearing_eq_bearingOfDisc hF] at hb
  obtain ⟨hfar, hle⟩ := bounds_of_bearingOfDisc hfitted hb
  rw [bearingOfDisc_of_frame hfitted hF hfar hle] at hb
  rw [← Option.some.inj (Except.ok.inj hb)]
  exact abs_le.mpr (F.sinLatitude_mem _)

/-- The inverse mapping of an ellipsoid has a value on the closed ellipse of the stretched map. -/
theorem inverseEllipsoid_domain_of_frame (he : e.Flattened) (hs : p.spheroid? = some s)
    (hof : s.Of e) (hfitted : s.Fitted) (hF : p.HasFrame F) :
    DefinedExactlyOn p.inverseEllipsoid (p.OnEllipsoidMap s) .offEllipsoid := by
  refine .of_cases rfl (fun x y h => ?_) fun x y h => ?_
  · by_cases hcentre : s.authalicRadius * s.reach x y < tolerance
    · have hbearing : p.bearingOfDisc s x y = .ok none := by
        unfold bearingOfDisc
        simp only [Exact.hypot_eq, hfitted.hypot_eq, if_pos hcentre]
      refine ⟨⟨0, p.latitude⟩, ?_⟩
      simp only [inverseEllipsoid, hs, bearing_eq_bearingOfDisc hF, hbearing]
      rfl
    · exact ⟨_, inverseEllipsoid_of_frame hs hfitted hF (not_lt.mp hcentre)
        ((hF.onEllipsoidMap_iff hfitted).mp h)⟩
  -- A point that is not on the map is not near the centre either, so it is the rim that refuses it.
  · rw [hF.onEllipsoidMap_iff hfitted] at h
    have hcentre : ¬s.authalicRadius * s.reach x y < tolerance :=
      fun hcentre => h (reach_le_of_centre he hof hfitted hcentre)
    have hrim : 1 < s.reach x y / 2 := by linarith
    have hbearing : p.bearingOfDisc s x y = .error .offEllipsoid := by
      unfold bearingOfDisc
      simp only [Exact.hypot_eq, Exact.ofScientific_eq, hfitted.hypot_eq, half_reach hfitted,
        if_neg hcentre, if_pos hrim]
    simp only [inverseEllipsoid, hs, bearing_eq_bearingOfDisc hF, hbearing]
    rfl

/-- The forward mapping of an ellipsoid stays in that ellipse. -/
theorem forwardEllipsoid_onMap_of_frame (hs : p.spheroid? = some s) (hfitted : s.Fitted)
    (hF : p.HasFrame F) (h : p.forwardEllipsoid lambda phi = .ok c) :
    p.OnEllipsoidMap s c.first c.second := by
  rw [forwardEllipsoid_of_frame hs hfitted hF] at h
  split_ifs at h with hantipode
  rw [← Except.ok.inj h, hF.onEllipsoidMap_iff hfitted, hfitted.reach_stretched]
  exact ((F.sight lambda _).hypot_image_lt (by linarith [tolerance_pos])).le

/-! ## Polar aspects of an ellipsoid -/

lemma HasPole.onEllipsoidMap_iff (hpole : p.HasPole sigma) :
    p.OnEllipsoidMap s x y ↔ x ^ 2 + y ^ 2 ≤ (2 + tolerance) * s.poleIntegral := by
  have haspect : p.aspect = .northPolar ∨ p.aspect = .southPolar := by
    cases hpole with
    | north h => exact .inl h
    | south h => exact .inr h
  refine ⟨fun h => ?_, .disc haspect⟩
  cases h with
  | ellipse aspect inside => rcases haspect with h | h <;> simp [h] at aspect
  | disc aspect inside => exact inside

/-- The test of the sine of the latitude is one of the distance from the pole. -/
lemma HasPole.abs_sine_le_iff (hpole : p.HasPole sigma) {q squared : ℝ} (hq : 0 < q)
    (hsquared : 0 ≤ squared) :
    |sigma * (squared / q - 1)| ≤ 1 + tolerance ↔ squared ≤ (2 + tolerance) * q := by
  have hsigma : |sigma| = 1 := by cases hpole <;> norm_num
  have hratio : 0 ≤ squared / q := div_nonneg hsquared hq.le
  rw [abs_mul, hsigma, one_mul, ← div_le_iff₀ hq, abs_le]
  constructor
  · rintro ⟨-, hhigh⟩
    linarith
  · intro hle
    constructor <;> linarith [tolerance_pos]

/-- The inverse mapping of an ellipsoid has a value on the disc of its area, enlarged by the
tolerance. -/
theorem inverseEllipsoid_domain_of_pole (he : e.Flattened) (hs : p.spheroid? = some s)
    (hof : s.Of e) (hpole : p.HasPole sigma) :
    DefinedExactlyOn p.inverseEllipsoid (p.OnEllipsoidMap s) .offEllipsoid := by
  have hq : 0 < s.poleIntegral := hof.poleIntegral_eq ▸ he.poleIntegral_pos
  have hsquares (x y : ℝ) : x ^ 2 + y ^ 2 = x * x + y * y := by ring
  have hnonneg (x y : ℝ) : 0 ≤ x * x + y * y := add_nonneg (mul_self_nonneg x) (mul_self_nonneg y)
  have hregion (x y : ℝ) : p.OnEllipsoidMap s x y ↔
      |sigma * ((x * x + y * y) / s.poleIntegral - 1)| ≤ 1 + tolerance := by
    rw [hpole.onEllipsoidMap_iff, hsquares, hpole.abs_sine_le_iff hq (hnonneg x y)]
  refine .of_cases rfl (fun x y h => ?_) fun x y h => ?_
  · rw [hregion] at h
    unfold inverseEllipsoid
    simp only [hs, bearing_polar hpole]
    by_cases hcentre : x * x + y * y = 0
    · rw [if_pos hcentre]
      exact ⟨_, rfl⟩
    · rw [if_neg hcentre]
      exact ⟨_, if_neg (not_lt.mpr h)⟩
  · have hfar : ¬x * x + y * y = 0 := by
      intro hzero
      rw [hpole.onEllipsoidMap_iff, hsquares, hzero] at h
      exact h (mul_nonneg (by linarith [tolerance_pos]) hq.le)
    rw [hregion, not_le] at h
    unfold inverseEllipsoid
    simp only [hs, bearing_polar hpole, if_neg hfar]
    exact if_pos h

/-- The forward mapping of an ellipsoid stays in the disc of its area. -/
theorem forwardEllipsoid_onMap_of_pole (he : e.Flattened) (hs : p.spheroid? = some s)
    (hof : s.Of e) (hpole : p.HasPole sigma) (h : p.forwardEllipsoid lambda phi = .ok c) :
    p.OnEllipsoidMap s c.first c.second := by
  have hq : 0 < s.poleIntegral := hof.poleIntegral_eq ▸ he.poleIntegral_pos
  have htolerance := tolerance_pos
  rw [hpole.onEllipsoidMap_iff]
  rw [forwardEllipsoid_polar hs hpole] at h
  set squared := s.poleIntegral * (1 + sigma * Real.sin (s.authalicLatitude phi)) with hsquared
  split_ifs at h with hantipode hcentre
  · rw [← Except.ok.inj h]
    simp only [Coordinate.origin]
    nlinarith
  · have hpos : 0 ≤ squared := poleLimit_pos.le.trans (not_lt.mp hcentre)
    have hsine : sigma * Real.sin (s.authalicLatitude phi) ≤ 1 := by
      have hlow := Real.neg_one_le_sin (s.authalicLatitude phi)
      have hhigh := Real.sin_le_one (s.authalicLatitude phi)
      cases hpole <;> linarith
    rw [← Except.ok.inj h]
    calc (Real.sqrt squared * Real.sin lambda) ^ 2 +
          (sigma * (Real.sqrt squared * Real.cos lambda)) ^ 2
        = squared := by
          linear_combination Real.sq_sqrt hpos + Real.sqrt squared ^ 2 *
            (Real.sin_sq_add_cos_sq lambda + Real.cos lambda ^ 2 * hpole.mul_self)
      _ ≤ (2 + tolerance) * s.poleIntegral := by
          rw [hsquared]
          nlinarith

/-! ## Every projection -/

/-- **The inverse mappings are defined exactly on the map**, that of the sphere on the disc of
radius two and that of an ellipsoid on its ellipse or disc.  The forward mappings stay there, at any
longitude and latitude, so the inverse never refuses the result of a forward mapping. -/
theorem inverse_domain (he : e.eccentricitySq ∈ Set.Ico (0 : ℝ) 1)
    (hp : centredAt latitude e = .ok p) :
    DefinedExactlyOn p.inverseSphere OnSphereMap .offSphere ∧
      (∀ lambda phi c, p.forwardSphere lambda phi = .ok c →
        OnSphereMap c.first c.second ∧ ∃ d, p.inverseSphere c.first c.second = .ok d) ∧
      (0 < e.eccentricitySq → ∃ s, p.spheroid? = some s ∧
        DefinedExactlyOn p.inverseEllipsoid (p.OnEllipsoidMap s) .offEllipsoid ∧
        (p.aspect = .equatorial ∨ p.aspect = .oblique → ∀ x y b,
          p.bearing s x y = .ok (some b) → |b.sinAuthalic| ≤ 1) ∧
        ∀ lambda phi c, p.forwardEllipsoid lambda phi = .ok c →
          p.OnEllipsoidMap s c.first c.second ∧
            ∃ d, p.inverseEllipsoid c.first c.second = .ok d) := by
  have hshape : (∃ sigma, p.HasPole sigma) ∨ ∃ F, p.HasFrame F :=
    p.hasPole_or.imp_right (exists_frame he hp)
  have hsphere := inverseSphere_domain p
  refine ⟨hsphere, fun lambda phi c hc => ?_, fun hpos => ?_⟩
  · have hmap := forwardSphere_onMap hshape hc
    exact ⟨hmap, (hsphere.2 _ _).1.mpr hmap⟩
  · have hflattened : e.Flattened := ⟨hpos, he.2⟩
    obtain ⟨s, hs, hof, hframe⟩ := exists_spheroid hflattened hp
    have hellipsoid : DefinedExactlyOn p.inverseEllipsoid (p.OnEllipsoidMap s) .offEllipsoid ∧
        ∀ lambda phi c, p.forwardEllipsoid lambda phi = .ok c →
          p.OnEllipsoidMap s c.first c.second := by
      rcases p.hasPole_or with ⟨sigma, hpole⟩ | hdisc
      · exact ⟨inverseEllipsoid_domain_of_pole hflattened hs hof hpole,
          fun _ _ _ => forwardEllipsoid_onMap_of_pole hflattened hs hof hpole⟩
      · obtain ⟨hfitted, F, hF⟩ := hframe hdisc
        exact ⟨inverseEllipsoid_domain_of_frame hflattened hs hof hfitted hF,
          fun _ _ _ => forwardEllipsoid_onMap_of_frame hs hfitted hF⟩
    refine ⟨s, hs, hellipsoid.1, fun hdisc x y b hb => ?_, fun lambda phi c hc => ?_⟩
    · obtain ⟨hfitted, F, hF⟩ := hframe hdisc
      exact abs_sinAuthalic_le_one hfitted hF hb
    · have hmap := hellipsoid.2 lambda phi c hc
      exact ⟨hmap, (hellipsoid.1.2 _ _).1.mpr hmap⟩

/-- An ellipsoid of half the height, seen from one radian north of the equator: the rim of the map
of the sphere has an image, and what lies beyond it has none; the point of the equator a quarter
turn to the east is mapped to the plane and back. -/
theorem inverse_domain_half_flattened :
    ∃ p : Projection ℝ, centredAt 1 ⟨1, 1 / 2⟩ = .ok p ∧
      (∃ c, p.inverseSphere 2 0 = .ok c) ∧ p.inverseSphere 2 1 = .error .offSphere ∧
        ∃ c d, p.forwardEllipsoid (Real.pi / 2) 0 = .ok c ∧
          p.inverseEllipsoid c.first c.second = .ok d := by
  have he := Ellipsoid.flattened_half
  have hp := centredAt_one he
  obtain ⟨hsphere, -, hellipsoid⟩ := inverse_domain ⟨he.pos.le, he.lt_one⟩ hp
  obtain ⟨s, hs, -, -, hforward⟩ := hellipsoid he.pos
  obtain ⟨t, ht, hof, hframe⟩ := exists_spheroid he hp
  obtain ⟨hfitted, F, hF⟩ := hframe (.inr rfl)
  have hquarter := forwardEllipsoid_quarter_turn ht hof hfitted hF
  obtain ⟨-, d, hd⟩ := hforward _ _ _ hquarter
  refine ⟨_, hp, (hsphere.2 2 0).1.mpr ?_, (hsphere.2 2 1).2 ?_, _, d, hquarter, hd⟩ <;>
    norm_num [OnSphereMap]

end Projection

end EqualArea
