import EqualArea.Proofs.Ellipsoid.AuthalicSphere

/-!
# The aspects agree

The equatorial and the polar aspects have formulas of their own.  They are those of the oblique
aspect with the centre on the equator or at a pole.

* `Projection.asOblique` — a projection with the same centre that runs the oblique formulas.
* `Projection.SpecialCentre`, `specialCentre_of_centredAt` — the centres that have formulas of their
  own, and the frames the oblique formulas see from there.
* `image_sight_of_pole`, `position_ofImage_of_pole` — the map of the sphere seen from a pole.
* `aspects_agree` — both mappings, on a sphere and on an ellipsoid.

**Design.**  On an ellipsoid the oblique formulas need the radius and the scale factors that a polar
projection does not keep.  They are given the values that leave the map true to scale at the centre.
-/

namespace EqualArea

open Sight (arc chord halfCos ofImage)

/-- The constants of an ellipsoid with the scale factors of an oblique aspect, for a stretch. -/
noncomputable def Spheroid.withStretch (s : Spheroid ℝ) (stretch : ℝ) : Spheroid ℝ :=
  { s with
    authalicRadius := s.radiusOfArea
    stretch := stretch
    eastFactor := s.radiusOfArea * stretch
    northFactor := s.radiusOfArea / stretch }

lemma Spheroid.withStretch_fitted {s : Spheroid ℝ} {e : Ellipsoid ℝ} (he : e.Flattened)
    (h : s.Of e) {stretch : ℝ} (hne : stretch ≠ 0) : (s.withStretch stretch).Fitted := by
  obtain ⟨hpos, hsq⟩ := radiusOfArea_spec he h
  exact ⟨hpos, hsq, hne, rfl, rfl⟩

lemma Spheroid.withStretch_of (s : Spheroid ℝ) {e : Ellipsoid ℝ} (h : s.Of e) (stretch : ℝ) :
    (s.withStretch stretch).Of e := ⟨h.ellipsoid_eq, h.poleIntegral_eq, h.series_eq⟩

/-- Constants that fit are determined by the stretch. -/
lemma Spheroid.Fitted.withStretch_eq {s : Spheroid ℝ} {e : Ellipsoid ℝ} (hs : s.Fitted)
    (he : e.Flattened) (h : s.Of e) : s.withStretch s.stretch = s := by
  rw [withStretch, hs.radiusOfArea_eq he h, ← hs.eastFactor_eq, ← hs.northFactor_eq]

namespace Projection

variable {p : Projection ℝ} {e : Ellipsoid ℝ} {s : Spheroid ℝ} {F : Frame}
  {latitude lambda phi x y sigma : ℝ} {c d : Coordinate ℝ}

/-- The latitude of the centre on the sphere of the same area. -/
noncomputable def authalicCentre (p : Projection ℝ) : ℝ :=
  match p.spheroid? with
  | none => p.latitude
  | some s => s.authalicLatitude p.latitude

/-- The projection with the same centre that runs the formulas of the oblique aspect. -/
noncomputable def asOblique (p : Projection ℝ) : Projection ℝ where
  aspect := .oblique
  latitude := p.latitude
  sinCentre := Real.sin p.authalicCentre
  cosCentre := Real.cos p.authalicCentre
  spheroid? := p.spheroid?.map fun s =>
    s.withStretch (if p.aspect = .equatorial then 1 / s.radiusOfArea else 1)

lemma asOblique_hasFrame (p : Projection ℝ) :
    p.asOblique.HasFrame (Frame.ofLatitude p.authalicCentre) :=
  .oblique rfl (Real.sin_sq_add_cos_sq _)

/-! ## Centres with formulas of their own -/

/-- The centre lies on the equator, or it is a pole, and the oblique formulas see it in the frame
given. -/
inductive SpecialCentre (p : Projection ℝ) (F : Frame) : Prop
  /-- On the equator. -/
  | equator (h : p.aspect = .equatorial) (frame : F = Frame.equator)
  /-- At a pole. -/
  | pole (sigma : ℝ) (h : p.HasPole sigma) (sin_eq : F.sin = -sigma) (cos_eq : F.cos = 0)

/-- The conversion of latitudes keeps the equator and the poles. -/
lemma authalicCentre_eq (hlatitude : latitude = 0 ∨ |latitude| = Real.pi / 2)
    (he : e.eccentricitySq ∈ Set.Ico (0 : ℝ) 1) (hp : centredAt latitude e = .ok p) :
    p.authalicCentre = latitude := by
  have hkept := latitude_of_centredAt hp
  unfold authalicCentre
  cases hs : p.spheroid? with
  | none => exact hkept
  | some s =>
    obtain ⟨hflattened, hof, -⟩ := spheroid_of_centredAt he hp hs
    change s.authalicLatitude p.latitude = latitude
    rw [hkept, hof.authalicLatitude_eq]
    rcases hlatitude with rfl | hpole
    · exact e.authalic_zero
    · rcases eq_or_eq_neg_of_abs_eq hpole with rfl | rfl
      · exact hflattened.authalic_pi_div_two
      · exact hflattened.authalic_neg_pi_div_two

theorem specialCentre_of_centredAt (hlatitude : latitude = 0 ∨ |latitude| = Real.pi / 2)
    (he : e.eccentricitySq ∈ Set.Ico (0 : ℝ) 1) (hp : centredAt latitude e = .ok p) :
    p.SpecialCentre (Frame.ofLatitude p.authalicCentre) := by
  have hpi := Real.pi_pos
  rw [authalicCentre_eq hlatitude he hp]
  rcases hlatitude with rfl | hpole
  · refine .equator (aspect_of_centredAt Aspect.ofLatitude_zero hp) ?_
    simp [Frame.ofLatitude, Frame.equator]
  · have haspect := aspect_of_centredAt (Aspect.ofLatitude_of_pole hpole) hp
    rcases eq_or_eq_neg_of_abs_eq hpole with rfl | rfl
    · rw [if_neg (by linarith)] at haspect
      exact .pole (-1) (.north haspect) (by simp [Frame.ofLatitude]) Real.cos_pi_div_two
    · rw [if_pos (by linarith)] at haspect
      exact .pole 1 (.south haspect) (by simp [Frame.ofLatitude]) (by simp [Frame.ofLatitude])

/-! ## The sphere seen from a pole -/

/-- Seen from a pole, the factor of the map takes the distance from the axis to the chord of the
polar distance. -/
lemma image_sight_of_pole (hpole : p.HasPole sigma) (hsin : F.sin = -sigma) (hcos : F.cos = 0)
    (hphi : phi ∈ Set.Icc (-(Real.pi / 2)) (Real.pi / 2)) (hup : -1 < (F.sight lambda phi).up) :
    (F.sight lambda phi).image = ⟨chord (Real.pi / 2 + sigma * phi) * Real.sin lambda,
      sigma * (chord (Real.pi / 2 + sigma * phi) * Real.cos lambda)⟩ := by
  set v := F.sight lambda phi with hv
  have hsigma := hpole.mul_self
  have hheight : v.up = -(sigma * Real.sin phi) := by
    simp only [hv, Frame.sight, hsin, hcos]
    ring
  have hscale := v.scale_sq_mul hup
  have hfactor : v.scale * Real.cos phi = chord (Real.pi / 2 + sigma * phi) := by
    rw [← sq_eq_sq₀ (mul_nonneg (v.scale_pos hup).le (Real.cos_nonneg_of_mem_Icc hphi))
      (Sight.chord_nonneg (hpole.polarDistance_mem hphi)), Sight.chord_sq,
      hpole.cos_polarDistance, ← hheight]
    rw [hheight] at hscale ⊢
    linear_combination v.scale ^ 2 * Real.sin_sq_add_cos_sq phi +
      (1 + sigma * Real.sin phi) * hscale + v.scale ^ 2 * Real.sin phi ^ 2 * hsigma
  ext
  · change v.scale * (Real.cos phi * Real.sin lambda) = _
    rw [← mul_assoc, hfactor]
  · change v.scale * (F.cos * Real.sin phi - F.sin * Real.cos phi * Real.cos lambda) = _
    rw [hsin, hcos, ← hfactor]
    ring

/-- Seen from a pole, a point of the disc lies in its own direction on the map. -/
lemma position_ofImage_of_pole (hsin : F.sin = -sigma) (hcos : F.cos = 0)
    (hlt : Exact.hypot x y < 2) :
    F.position (ofImage x y hlt.le) =
      ⟨Exact.atan2 x (sigma * y), Real.arcsin (sigma * ((x ^ 2 + y ^ 2) / 2 - 1))⟩ := by
  have hhalf : 0 < halfCos x y := by
    have hsq := Exact.hypot_sq x y
    have hnonneg := Exact.hypot_nonneg x y
    exact Real.sqrt_pos.mpr (by nlinarith)
  have hsine : F.sinLatitude (ofImage x y hlt.le) = sigma * ((x ^ 2 + y ^ 2) / 2 - 1) := by
    simp only [Frame.sinLatitude, ofImage, hsin, hcos]
    ring
  have hmeridional : F.meridional (ofImage x y hlt.le) = halfCos x y * (sigma * y) := by
    simp only [Frame.meridional, ofImage, hsin, hcos]
    ring
  have heast : (ofImage x y hlt.le).east = halfCos x y * x := mul_comm x _
  rw [Frame.position, hsine, hmeridional, heast, Exact.atan2_mul hhalf]

/-! ## To the plane -/

lemma forwardSphere_agrees (hcentre : p.SpecialCentre (Frame.ofLatitude p.authalicCentre))
    (hphi : phi ∈ Set.Icc (-(Real.pi / 2)) (Real.pi / 2))
    (hown : p.forwardSphere lambda phi = .ok c)
    (hoblique : p.asOblique.forwardSphere lambda phi = .ok d) : c = d := by
  have hF := p.asOblique_hasFrame
  set F := Frame.ofLatitude p.authalicCentre
  rw [forwardSphere_of_frame hF] at hoblique
  split_ifs at hoblique with hup
  have hup' : -1 < (F.sight lambda phi).up := by linarith [tolerance_pos]
  cases hcentre with
  | equator h frame =>
    rw [forwardSphere_of_frame (.equatorial h), ← frame, if_neg hup] at hown
    rw [← Except.ok.inj hown, ← Except.ok.inj hoblique]
  | pole sigma hpole hsin hcos =>
    rw [forwardSphere_polar hpole] at hown
    split_ifs at hown
    rw [← Except.ok.inj hown, ← Except.ok.inj hoblique,
      image_sight_of_pole hpole hsin hcos hphi hup']

lemma asOblique_spheroid? (hs : p.spheroid? = some s) {stretch : ℝ}
    (hstretch : stretch = if p.aspect = .equatorial then 1 / s.radiusOfArea else 1) :
    p.asOblique.spheroid? = some (s.withStretch stretch) := by
  simp only [asOblique, hs, Option.map_some, hstretch]

/-- The constants that the oblique formulas are given fit. -/
lemma exists_withStretch (he : e.Flattened) (hp : centredAt latitude e = .ok p)
    (hs : p.spheroid? = some s) (hcentre : p.SpecialCentre F) :
    p.asOblique.spheroid? = some (s.withStretch s.stretch) ∧
      (s.withStretch s.stretch).Fitted := by
  obtain ⟨-, hof, -⟩ := spheroid_of_centredAt ⟨he.pos.le, he.lt_one⟩ hp hs
  obtain ⟨hradius, -⟩ := Spheroid.radiusOfArea_spec he hof
  cases hcentre with
  | equator h =>
    have hstretch := stretch_of_equatorial he hp hs h
    refine ⟨asOblique_spheroid? hs (by rw [if_pos h, hstretch]),
      Spheroid.withStretch_fitted he hof ?_⟩
    rw [hstretch]
    exact (one_div_pos.mpr hradius).ne'
  | pole sigma hpole =>
    have hstretch := stretch_of_pole he hp hs hpole
    have hnot : p.aspect ≠ .equatorial := by
      rcases hpole.aspect_eq with h | h <;> simp [h]
    refine ⟨asOblique_spheroid? hs (by rw [if_neg hnot, hstretch]),
      Spheroid.withStretch_fitted he hof ?_⟩
    rw [hstretch]
    exact one_ne_zero

lemma forwardEllipsoid_agrees (he : e.Flattened) (hp : centredAt latitude e = .ok p)
    (hs : p.spheroid? = some s) (hcentre : p.SpecialCentre (Frame.ofLatitude p.authalicCentre))
    (hphi : phi ∈ Set.Icc (-(Real.pi / 2)) (Real.pi / 2)) (hregular : ¬p.TakenForPole phi)
    (hown : p.forwardEllipsoid lambda phi = .ok c)
    (hoblique : p.asOblique.forwardEllipsoid lambda phi = .ok d) : c = d := by
  obtain ⟨-, hof, hfit⟩ := spheroid_of_centredAt ⟨he.pos.le, he.lt_one⟩ hp hs
  obtain ⟨ht, hfitted⟩ := exists_withStretch he hp hs hcentre
  have hF := p.asOblique_hasFrame
  set F := Frame.ofLatitude p.authalicCentre
  set t := s.withStretch s.stretch with hdef
  have hauthalic : t.authalicLatitude phi = s.authalicLatitude phi := rfl
  rw [forwardEllipsoid_of_frame ht hfitted hF, hauthalic] at hoblique
  split_ifs at hoblique with hup
  have hup' : -1 < (F.sight lambda (s.authalicLatitude phi)).up := by linarith [tolerance_pos]
  -- At the equator the frames are the same and so are the constants.  At a pole the oblique frame
  -- sees the chord the polar formula computes.
  cases hcentre with
  | equator h frame =>
    have heq : t = s := (hfit (.inl h)).withStretch_eq he hof
    rw [forwardEllipsoid_of_frame hs (hfit (.inl h)) (.equatorial h), ← frame, if_neg hup] at hown
    rw [← Except.ok.inj hown, ← Except.ok.inj hoblique, heq]
  | pole sigma hpole hsin hcos =>
    rw [forwardEllipsoid_chord he hs hof hpole hphi hregular] at hown
    split_ifs at hown
    rw [← Except.ok.inj hown, ← Except.ok.inj hoblique,
      image_sight_of_pole hpole hsin hcos (hof.authalicLatitude_mem_Icc he hphi) hup',
      Spheroid.stretched, hdef, Spheroid.withStretch, stretch_of_pole he hp hs hpole, mul_one,
      div_one]

/-! ## From the plane -/

lemma inverseSphere_agrees (h : p.aspect = .equatorial)
    (hcentre : p.SpecialCentre (Frame.ofLatitude p.authalicCentre))
    (hfar : tolerance < Exact.hypot x y) (hlt : Exact.hypot x y < 2) :
    ∃ c, p.inverseSphere x y = .ok c ∧ p.asOblique.inverseSphere x y = .ok c := by
  have hF := p.asOblique_hasFrame
  cases hcentre with
  | equator _ frame =>
    rw [frame] at hF
    exact ⟨_, inverseSphere_of_frame (.equatorial h) one_pos hfar hlt.le,
      inverseSphere_of_frame hF one_pos hfar hlt.le⟩
  | pole sigma hpole => rcases hpole.aspect_eq with h' | h' <;> simp [h] at h'

lemma inverseEllipsoid_agrees (he : e.Flattened) (hp : centredAt latitude e = .ok p)
    (hs : p.spheroid? = some s) (hcentre : p.SpecialCentre (Frame.ofLatitude p.authalicCentre))
    (hfar : tolerance ≤ Exact.hypot (x / s.stretch) (y * s.stretch))
    (hlt : Exact.hypot (x / s.stretch) (y * s.stretch) < 2 * s.radiusOfArea) :
    ∃ c, p.inverseEllipsoid x y = .ok c ∧ p.asOblique.inverseEllipsoid x y = .ok c := by
  obtain ⟨-, hof, hfit⟩ := spheroid_of_centredAt ⟨he.pos.le, he.lt_one⟩ hp hs
  obtain ⟨ht, hfitted⟩ := exists_withStretch he hp hs hcentre
  have hF := p.asOblique_hasFrame
  set F := Frame.ofLatitude p.authalicCentre
  set t := s.withStretch s.stretch with hdef
  have hradius : 0 < s.radiusOfArea := hfitted.radius_pos
  have hdistance : Exact.hypot (x / s.stretch) (y * s.stretch) = s.radiusOfArea * t.reach x y :=
    hfitted.hypot_eq x y
  rw [hdistance] at hfar hlt
  have hreach : t.reach x y < 2 := by nlinarith
  have hoblique := inverseEllipsoid_of_frame ht hfitted hF hfar hreach.le
  refine ⟨_, ?_, hoblique⟩
  cases hcentre with
  | equator h frame =>
    have heq : t = s := (hfit (.inl h)).withStretch_eq he hof
    have hframe : p.HasFrame F := frame ▸ .equatorial h
    exact inverseEllipsoid_of_frame (heq ▸ hs) hfitted hframe hfar hreach.le
  | pole sigma hpole hsin hcos =>
    have hpoint : t.unstretched x y = ⟨x / s.radiusOfArea, y / s.radiusOfArea⟩ := by
      change (⟨x / s.stretch / s.radiusOfArea, y * s.stretch / s.radiusOfArea⟩ : Coordinate ℝ) = _
      rw [stretch_of_pole he hp hs hpole, div_one, mul_one]
    have hle : Exact.hypot (x / s.radiusOfArea) (y / s.radiusOfArea) ≤ 2 := by
      rw [Spheroid.reach, hpoint] at hreach
      exact hreach.le
    -- The polar formula has the origin as its only exception, and that is nearer than the
    -- tolerance.
    have hne : x * x + y * y ≠ 0 := by
      have hsq := Exact.hypot_sq x y
      rw [stretch_of_pole he hp hs hpole, div_one, mul_one] at hdistance
      rw [← hdistance] at hfar
      nlinarith [tolerance_pos]
    rw [inverseEllipsoid_polar he hs hof hpole hne hle,
      position_ofImage_of_pole hsin hcos hreach, hpoint]
    rfl

/-! ## All points -/

/-- **The aspects are one projection.**  Centred on the equator or at a pole, the formulas of the
own aspect and those of the oblique aspect agree wherever both have a value, and away from the
centre and the rim of the map both do have the value of the inverse mapping. -/
theorem aspects_agree (hlatitude : latitude = 0 ∨ |latitude| = Real.pi / 2)
    (he : e.eccentricitySq ∈ Set.Ico (0 : ℝ) 1) (hp : centredAt latitude e = .ok p) :
    (∀ lambda, ∀ phi ∈ Set.Icc (-(Real.pi / 2)) (Real.pi / 2),
      (∀ c d, p.forwardSphere lambda phi = .ok c →
        p.asOblique.forwardSphere lambda phi = .ok d → c = d) ∧
      (¬p.TakenForPole phi → ∀ c d, p.forwardEllipsoid lambda phi = .ok c →
        p.asOblique.forwardEllipsoid lambda phi = .ok d → c = d)) ∧
    (p.aspect = .equatorial → ∀ x y, tolerance < Exact.hypot x y → Exact.hypot x y < 2 →
      ∃ c, p.inverseSphere x y = .ok c ∧ p.asOblique.inverseSphere x y = .ok c) ∧
    (∀ s, p.spheroid? = some s → ∀ x y,
      tolerance ≤ Exact.hypot (x / s.stretch) (y * s.stretch) →
      Exact.hypot (x / s.stretch) (y * s.stretch) < 2 * s.radiusOfArea →
      ∃ c, p.inverseEllipsoid x y = .ok c ∧ p.asOblique.inverseEllipsoid x y = .ok c) := by
  have hcentre := specialCentre_of_centredAt hlatitude he hp
  refine ⟨?_, ?_, ?_⟩
  · intro lambda phi hphi
    refine ⟨fun c d hown hoblique => forwardSphere_agrees hcentre hphi hown hoblique, ?_⟩
    intro hregular c d hown hoblique
    cases hs : p.spheroid? with
    | none =>
      have hreleased : p.forwardEllipsoid lambda phi = .error .released := by
        simp only [forwardEllipsoid, hs]
      rw [hreleased] at hown
      cases hown
    | some s =>
      obtain ⟨hflattened, -⟩ := spheroid_of_centredAt he hp hs
      exact forwardEllipsoid_agrees hflattened hp hs hcentre hphi hregular hown hoblique
  · intro hequator x y hfar hlt
    exact inverseSphere_agrees hequator hcentre hfar hlt
  · intro s hs x y hfar hlt
    obtain ⟨hflattened, -⟩ := spheroid_of_centredAt he hp hs
    exact inverseEllipsoid_agrees hflattened hp hs hcentre hfar hlt

/-- On the map of the northern hemisphere of an ellipsoid with one axis half as long as the other,
both formulas take a point of the equator to the same point, and that to the same position. -/
theorem aspects_agree_quarter_turn :
    ∃ p c b, centredAt (Real.pi / 2) (⟨1, 1 / 2⟩ : Ellipsoid ℝ) = .ok p ∧
      p.aspect = .northPolar ∧
      p.forwardEllipsoid (Real.pi / 2) 0 = .ok c ∧
      p.asOblique.forwardEllipsoid (Real.pi / 2) 0 = .ok c ∧
      p.inverseEllipsoid c.first c.second = .ok b ∧
      p.asOblique.inverseEllipsoid c.first c.second = .ok b := by
  set e : Ellipsoid ℝ := ⟨1, 1 / 2⟩
  have hpi := Real.pi_gt_three
  have htolerance := tolerance_lt_one
  have he : e.Flattened := Ellipsoid.flattened_half
  have hlatitude : |Real.pi / 2| = Real.pi / 2 := abs_of_pos Real.pi_div_two_pos
  have hp : centredAt (Real.pi / 2) e = .ok (ofEllipsoid .northPolar (Real.pi / 2) e) :=
    centredAt_pi_div_two he
  set p := ofEllipsoid .northPolar (Real.pi / 2) e
  have hes : e.eccentricitySq ∈ Set.Ico (0 : ℝ) 1 := ⟨he.pos.le, he.lt_one⟩
  have hpole : p.HasPole (-1) := .north rfl
  obtain ⟨s, hs, hof, -⟩ := exists_spheroid he hp
  obtain ⟨ht, hfitted⟩ :=
    exists_withStretch he hp hs (specialCentre_of_centredAt (.inr hlatitude) hes hp)
  set t := s.withStretch s.stretch
  have htof : t.Of e := s.withStretch_of hof _
  obtain ⟨hforth, -, hback⟩ := aspects_agree (.inr hlatitude) hes hp
  have hoblique := forwardEllipsoid_quarter_turn ht htof hfitted p.asOblique_hasFrame
  have hown := hpole.forwardEllipsoid_zero he hs hof (Real.pi / 2)
  have hsame := (hforth (Real.pi / 2) 0 ⟨by linarith, by linarith⟩).2
    (hpole.not_takenForPole_zero he hs hof) _ _ hown hoblique
  rw [hsame] at hown
  set c := t.stretched ⟨Real.sqrt 2, 0⟩
  have hdistance : Exact.hypot (c.first / s.stretch) (c.second * s.stretch) =
      s.radiusOfArea * Real.sqrt 2 := by
    have hreach := hfitted.reach_stretched ⟨Real.sqrt 2, 0⟩
    rw [Exact.hypot_zero_right (Real.sqrt_nonneg 2)] at hreach
    rw [← hreach]
    exact hfitted.hypot_eq _ _
  have hradius : 1 ≤ s.radiusOfArea * Real.sqrt 2 := one_le_radius_mul_sqrt_two he htof hfitted
  have hsqrt : Real.sqrt 2 < 2 := by linarith [Real.sqrt_two_lt_three_halves]
  obtain ⟨b, hb⟩ := hback s hs c.first c.second (by rw [hdistance]; linarith) (by
    rw [hdistance, mul_comm]
    exact mul_lt_mul_of_pos_right hsqrt hfitted.radius_pos)
  exact ⟨p, c, b, hp, rfl, hown, hoblique, hb⟩

end Projection

end EqualArea
