import EqualArea.Projection.Ellipsoid
import EqualArea.Proofs.Ellipsoid.Constants

/-!
# The mappings of the ellipsoid over the reals

What the two mappings of an ellipsoid compute, in terms of the map of the authalic sphere.

* `Spheroid.stretched`, `Spheroid.unstretched` — from the map of the unit sphere to that of the
  ellipsoid, and back.
* `forwardEllipsoid_of_frame`, `bearingOfDisc_of_frame` — the mappings under an equatorial or
  oblique aspect.
* `forwardEllipsoid_polar`, `bearing_polar` — the mappings under a polar aspect.
* `Projection.TakenForPole`, `Projection.TakenForEllipsoidCentre` — the points that are not mapped
  by a formula, of either mapping.
* `inverseEllipsoid_of_bearing`, `inverseEllipsoid_of_frame`, `inverseEllipsoid_polar` — what the
  inverse mapping makes of a bearing, and of a point under either kind of aspect.
-/

namespace EqualArea

open Sight (arc halfCos ofImage sin_arc cos_arc)

namespace Spheroid

/-- A point of the map of the unit sphere on the map of the ellipsoid. -/
noncomputable def stretched (s : Spheroid ℝ) (c : Coordinate ℝ) : Coordinate ℝ :=
  ⟨s.authalicRadius * s.stretch * c.first, s.authalicRadius / s.stretch * c.second⟩

/-- A point of the map of the ellipsoid on the map of the unit sphere. -/
noncomputable def unstretched (s : Spheroid ℝ) (x y : ℝ) : Coordinate ℝ :=
  ⟨x / s.stretch / s.authalicRadius, y * s.stretch / s.authalicRadius⟩

/-- The distance of a point from the centre, on the map of the unit sphere. -/
noncomputable def reach (s : Spheroid ℝ) (x y : ℝ) : ℝ :=
  Exact.hypot (s.unstretched x y).first (s.unstretched x y).second

variable {s : Spheroid ℝ}

lemma Fitted.unstretched_stretched (hs : s.Fitted) (c : Coordinate ℝ) :
    s.unstretched (s.stretched c).first (s.stretched c).second = c := by
  have hradius := hs.radius_pos.ne'
  have hstretch := hs.stretch_ne_zero
  ext <;> simp only [unstretched, stretched] <;> field_simp

lemma Fitted.stretched_unstretched (hs : s.Fitted) (x y : ℝ) :
    s.stretched (s.unstretched x y) = ⟨x, y⟩ := by
  have hradius := hs.radius_pos.ne'
  have hstretch := hs.stretch_ne_zero
  ext <;> simp only [unstretched, stretched] <;> field_simp

lemma Fitted.div_stretch (hs : s.Fitted) (x y : ℝ) :
    x / s.stretch = s.authalicRadius * (s.unstretched x y).first :=
  (mul_div_cancel₀ _ hs.radius_pos.ne').symm

lemma Fitted.mul_stretch (hs : s.Fitted) (x y : ℝ) :
    y * s.stretch = s.authalicRadius * (s.unstretched x y).second :=
  (mul_div_cancel₀ _ hs.radius_pos.ne').symm

lemma Fitted.reach_stretched (hs : s.Fitted) (c : Coordinate ℝ) :
    s.reach (s.stretched c).first (s.stretched c).second = Exact.hypot c.first c.second := by
  rw [reach, hs.unstretched_stretched]

/-- The distance the inverse mapping measures. -/
lemma Fitted.hypot_eq (hs : s.Fitted) (x y : ℝ) :
    Exact.hypot (x / s.stretch) (y * s.stretch) = s.authalicRadius * s.reach x y := by
  rw [hs.div_stretch x y, hs.mul_stretch x y, Exact.hypot_mul hs.radius_pos.le, reach]

end Spheroid

namespace Projection

variable {p : Projection ℝ} {s : Spheroid ℝ} {F : Frame} {lambda phi x y : ℝ}

/-! ## Equatorial and oblique aspects -/

/-- The argument of the scale is the height above the antipode, which is never negative. -/
lemma radialScale_eq (v : Sight) :
    radialScale (1 + v.up) =
      if 1 + v.up < tolerance then .error .antipode else .ok v.scale := by
  unfold radialScale
  rw [Exact.abs_eq, abs_of_nonneg (by linarith [v.neg_one_le_up])]
  rfl

theorem forwardEllipsoid_of_frame (hs : p.spheroid? = some s) (hfitted : s.Fitted)
    (hF : p.HasFrame F) (lambda phi : ℝ) :
    p.forwardEllipsoid lambda phi =
      if 1 + (F.sight lambda (s.authalicLatitude phi)).up < tolerance then .error .antipode
      else .ok (s.stretched (F.sight lambda (s.authalicLatitude phi)).image) := by
  set xi := s.authalicLatitude phi with hxi
  have hscale := radialScale_eq (F.sight lambda xi)
  -- The formulas of the equatorial aspect are those of the oblique one with zero for the sine of
  -- the centre and one for the cosine, multiplied out.
  cases hF with
  | equatorial h =>
    have hup : 1 + (Frame.equator.sight lambda xi).up = 1 + Real.cos xi * Real.cos lambda := by
      simp [Frame.equator, Frame.sight]
    simp only [forwardEllipsoid, hs, h, ← hxi, Exact.sin_eq, Exact.cos_eq]
    rw [hup] at hscale ⊢
    rw [hscale]
    split_ifs with hantipode
    · rfl
    · refine congrArg Except.ok (Coordinate.ext ?_ ?_)
      · simp only [Spheroid.stretched, Sight.image, Frame.sight, hfitted.eastFactor_eq]
        ring
      · simp only [Spheroid.stretched, Sight.image, Frame.sight, Frame.equator,
          hfitted.northFactor_eq]
        ring
  | oblique h unit =>
    simp only [forwardEllipsoid, hs, h, ← hxi, Exact.sin_eq, Exact.cos_eq]
    rw [Frame.sight, ← add_assoc] at hscale
    rw [hscale]
    simp only [Frame.sight, ← add_assoc]
    split_ifs with hantipode
    · rfl
    · refine congrArg Except.ok (Coordinate.ext ?_ ?_)
      · simp only [Spheroid.stretched, Sight.image, hfitted.eastFactor_eq]
        ring
      · simp only [Spheroid.stretched, Sight.image, hfitted.northFactor_eq]
        ring

/-- A quarter turn east on the equator lies on the horizon of every centre. -/
lemma forwardEllipsoid_quarter_turn {e : Ellipsoid ℝ} (hs : p.spheroid? = some s) (hof : s.Of e)
    (hfitted : s.Fitted) (hF : p.HasFrame F) :
    p.forwardEllipsoid (Real.pi / 2) 0 = .ok (s.stretched ⟨Real.sqrt 2, 0⟩) := by
  obtain ⟨hup, himage⟩ := F.sight_quarter_turn
  have htolerance := tolerance_lt_one
  rw [forwardEllipsoid_of_frame hs hfitted hF, hof.authalicLatitude_eq, e.authalic_zero, hup,
    himage, if_neg (by linarith)]

lemma bearing_eq_bearingOfDisc (hF : p.HasFrame F) (s : Spheroid ℝ) (x y : ℝ) :
    p.bearing s x y = p.bearingOfDisc s x y := by
  cases hF with
  | equatorial h => simp only [bearing, h]
  | oblique h unit => simp only [bearing, h]

lemma half_reach (hfitted : s.Fitted) (x y : ℝ) :
    0.5 * (s.authalicRadius * s.reach x y) / s.authalicRadius = s.reach x y / 2 := by
  have hradius := hfitted.radius_pos.ne'
  field_simp
  ring

/-- A bearing is found within the rim and outside the tolerance of the centre. -/
lemma bounds_of_bearingOfDisc (hfitted : s.Fitted) {b : Bearing ℝ}
    (hb : p.bearingOfDisc s x y = .ok (some b)) :
    tolerance ≤ s.authalicRadius * s.reach x y ∧ s.reach x y ≤ 2 := by
  unfold bearingOfDisc at hb
  simp only [Exact.hypot_eq, Exact.ofScientific_eq, hfitted.hypot_eq, half_reach hfitted] at hb
  split_ifs at hb with hcentre hrim hoblique
  · cases hb
  · exact ⟨not_lt.mp hcentre, by linarith⟩
  · exact ⟨not_lt.mp hcentre, by linarith⟩

/-- The bearing of a point is that of its sight. -/
theorem bearingOfDisc_of_frame (hfitted : s.Fitted) (hF : p.HasFrame F)
    (hfar : tolerance ≤ s.authalicRadius * s.reach x y) (hle : s.reach x y ≤ 2) :
    p.bearingOfDisc s x y = .ok (some
      ⟨F.sinLatitude (ofImage _ _ hle),
        s.authalicRadius * s.reach x y * (ofImage _ _ hle).east,
        s.authalicRadius * s.reach x y * F.meridional (ofImage _ _ hle)⟩) := by
  have hradius := hfitted.radius_pos
  have hreach : 0 < s.reach x y :=
    pos_of_mul_pos_right (lt_of_lt_of_le tolerance_pos hfar) hradius.le
  have hcentre : ¬s.authalicRadius * s.reach x y < tolerance := not_lt.mpr hfar
  have hrim : ¬1 < s.reach x y / 2 := by linarith
  have harc : 2 * Real.arcsin (s.reach x y / 2) =
    arc (s.unstretched x y).first (s.unstretched x y).second := rfl
  have hsin : Real.sin (arc (s.unstretched x y).first (s.unstretched x y).second) =
    s.reach x y * halfCos (s.unstretched x y).first (s.unstretched x y).second := sin_arc hle
  have hcos : Real.cos (arc (s.unstretched x y).first (s.unstretched x y).second) =
    (ofImage _ _ hle).up := cos_arc hle
  unfold bearingOfDisc
  simp only [Exact.hypot_eq, Exact.ofScientific_eq, Exact.asin_eq, Exact.sin_eq, Exact.cos_eq,
    hfitted.hypot_eq, half_reach hfitted, if_neg hcentre, if_neg hrim, harc, hsin, hcos]
  rw [hfitted.div_stretch x y, hfitted.mul_stretch x y]
  -- As on the way forth, the equatorial aspect has formulas of its own.
  cases hF with
  | equatorial h =>
    have hnot : p.aspect ≠ .oblique := by simp [h]
    rw [if_neg hnot]
    simp only [Frame.sinLatitude, Frame.meridional, Frame.equator]
    refine congrArg (fun b => Except.ok (some b)) ?_
    congr 1
    · change _ = 0 * _ + 1 * ((s.unstretched x y).second * halfCos _ _)
      field_simp
      ring
    · change _ = s.authalicRadius * s.reach x y * ((s.unstretched x y).first * halfCos _ _)
      ring
    · ring
  | oblique h unit =>
    rw [if_pos h]
    simp only [Frame.sinLatitude, Frame.meridional]
    refine congrArg (fun b => Except.ok (some b)) ?_
    congr 1
    · change _ = _ + p.cosCentre * ((s.unstretched x y).second * halfCos _ _)
      field_simp
    · change _ = s.authalicRadius * s.reach x y * ((s.unstretched x y).first * halfCos _ _)
      ring
    · change _ = s.authalicRadius * s.reach x y *
        (p.cosCentre * _ - p.sinCentre * ((s.unstretched x y).second * halfCos _ _))
      ring

/-! ## Polar aspects -/

lemma poleLimit_eq : (poleLimit : ℝ) = 1e-15 := rfl

lemma poleLimit_pos : (0 : ℝ) < poleLimit := by
  rw [poleLimit_eq]
  norm_num

/-- The square of the distance from the pole on the map is the area between the pole and the
parallel. -/
theorem forwardEllipsoid_polar (hs : p.spheroid? = some s) {sigma : ℝ} (hpole : p.HasPole sigma)
    (lambda phi : ℝ) :
    p.forwardEllipsoid lambda phi =
      if |Real.pi / 2 - sigma * phi| < tolerance then .error .antipode
      else if s.poleIntegral * (1 + sigma * Real.sin (s.authalicLatitude phi)) < poleLimit then
        .ok Coordinate.origin
      else
        .ok ⟨Real.sqrt (s.poleIntegral * (1 + sigma * Real.sin (s.authalicLatitude phi))) *
            Real.sin lambda,
          sigma * (Real.sqrt (s.poleIntegral * (1 + sigma * Real.sin (s.authalicLatitude phi))) *
            Real.cos lambda)⟩ := by
  cases hpole with
  | north h =>
    have hsquared : s.poleIntegral - Real.sin (s.authalicLatitude phi) * s.poleIntegral =
        s.poleIntegral * (1 + -1 * Real.sin (s.authalicLatitude phi)) := by ring
    have hantipode : Real.pi / 2 + phi = Real.pi / 2 - -1 * phi := by ring
    simp only [forwardEllipsoid, hs, h, polarRadius, Exact.sin_eq, Exact.cos_eq, Exact.abs_eq,
      Exact.quarterTurn_eq, Exact.sqrt_eq, hsquared, hantipode]
    split_ifs
    · rfl
    · rfl
    · refine congrArg Except.ok (Coordinate.ext rfl ?_)
      ring
  | south h =>
    have hsquared : s.poleIntegral + Real.sin (s.authalicLatitude phi) * s.poleIntegral =
        s.poleIntegral * (1 + 1 * Real.sin (s.authalicLatitude phi)) := by ring
    have hantipode : |phi - Real.pi / 2| = |Real.pi / 2 - 1 * phi| := by
      rw [one_mul, abs_sub_comm]
    simp only [forwardEllipsoid, hs, h, polarRadius, Exact.sin_eq, Exact.cos_eq, Exact.abs_eq,
      Exact.quarterTurn_eq, Exact.sqrt_eq, hsquared, hantipode]
    split_ifs
    · rfl
    · rfl
    · refine congrArg Except.ok (Coordinate.ext rfl ?_)
      ring

theorem bearing_polar {sigma : ℝ} (hpole : p.HasPole sigma) (s : Spheroid ℝ) (x y : ℝ) :
    p.bearing s x y = .ok (if x * x + y * y = 0 then none
      else some ⟨sigma * ((x * x + y * y) / s.poleIntegral - 1), x, sigma * y⟩) := by
  cases hpole with
  | north h => simp only [bearing, h, Exact.beq_iff, neg_one_mul, neg_sub]
  | south h => simp only [bearing, h, Exact.beq_iff, one_mul]

/-! ## Points taken for a pole or for the centre -/

/-- A point of a polar aspect that is so close to the pole that it is taken for it. -/
def TakenForPole (p : Projection ℝ) (phi : ℝ) : Prop :=
  ∃ s, p.spheroid? = some s ∧
    (p.aspect = .northPolar ∧
        s.poleIntegral - Real.sin (s.authalicLatitude phi) * s.poleIntegral < poleLimit ∨
      p.aspect = .southPolar ∧
        s.poleIntegral + Real.sin (s.authalicLatitude phi) * s.poleIntegral < poleLimit)

lemma takenForPole_iff {sigma phi : ℝ} (hs : p.spheroid? = some s) (hpole : p.HasPole sigma) :
    p.TakenForPole phi ↔
      s.poleIntegral * (1 + sigma * Real.sin (s.authalicLatitude phi)) < poleLimit := by
  have hsigned : s.poleIntegral * (1 + sigma * Real.sin (s.authalicLatitude phi)) =
      s.poleIntegral + sigma * (Real.sin (s.authalicLatitude phi) * s.poleIntegral) := by ring
  rw [hsigned]
  cases hpole with
  | north h => simp [TakenForPole, hs, h, sub_eq_add_neg]
  | south h => simp [TakenForPole, hs, h]

/-- The area between a pole and the equator is not a small one. -/
lemma HasPole.not_takenForPole_zero {e : Ellipsoid ℝ} (he : e.Flattened) {sigma : ℝ}
    (hpole : p.HasPole sigma) (hs : p.spheroid? = some s) (hof : s.Of e) : ¬p.TakenForPole 0 := by
  have hone : 1 ≤ s.poleIntegral := hof.poleIntegral_eq ▸ he.one_le_poleIntegral
  have hlimit : (poleLimit : ℝ) < 1 := by rw [poleLimit_eq]; norm_num
  rw [takenForPole_iff hs hpole, hof.authalicLatitude_eq, e.authalic_zero, Real.sin_zero, mul_zero,
    add_zero, mul_one]
  linarith

/-- The image of the equator on a polar map is the circle with the area of the hemisphere. -/
lemma HasPole.forwardEllipsoid_zero {e : Ellipsoid ℝ} (he : e.Flattened) {sigma : ℝ}
    (hpole : p.HasPole sigma) (hs : p.spheroid? = some s) (hof : s.Of e) (lambda : ℝ) :
    p.forwardEllipsoid lambda 0 = .ok ⟨Real.sqrt s.poleIntegral * Real.sin lambda,
      sigma * (Real.sqrt s.poleIntegral * Real.cos lambda)⟩ := by
  have hpi := Real.pi_gt_three
  have htolerance := tolerance_lt_one
  have hregular := hpole.not_takenForPole_zero he hs hof
  rw [takenForPole_iff hs hpole] at hregular
  rw [forwardEllipsoid_polar hs hpole, if_neg hregular, hof.authalicLatitude_eq, e.authalic_zero,
    Real.sin_zero, mul_zero, add_zero, mul_one, sub_zero,
    abs_of_pos Real.pi_div_two_pos, if_neg (by linarith)]

lemma HasFrame.not_takenForPole (hF : p.HasFrame F) (phi : ℝ) : ¬p.TakenForPole phi := by
  rintro ⟨s, -, ⟨h, -⟩ | ⟨h, -⟩⟩ <;> cases hF <;> simp_all

/-- A point of the map whose bearing is not asked, since the inverse mapping of the ellipsoid takes
it for the centre. -/
def TakenForEllipsoidCentre (p : Projection ℝ) (s : Spheroid ℝ) (x y : ℝ) : Prop :=
  match p.aspect with
  | .equatorial | .oblique => Exact.hypot (x / s.stretch) (y * s.stretch) < tolerance
  | .northPolar | .southPolar => x * x + y * y = 0

lemma HasFrame.takenForEllipsoidCentre_iff (hF : p.HasFrame F) (hfitted : s.Fitted) :
    p.TakenForEllipsoidCentre s x y ↔ s.authalicRadius * s.reach x y < tolerance := by
  rw [← hfitted.hypot_eq]
  cases hF with
  | equatorial h => simp only [TakenForEllipsoidCentre, h]
  | oblique h unit => simp only [TakenForEllipsoidCentre, h]

lemma HasPole.takenForEllipsoidCentre_iff {sigma : ℝ} (hpole : p.HasPole sigma) :
    p.TakenForEllipsoidCentre s x y ↔ x * x + y * y = 0 := by
  cases hpole with
  | north h => simp only [TakenForEllipsoidCentre, h]
  | south h => simp only [TakenForEllipsoidCentre, h]

/-! ## From a bearing to a position -/

/-- A bearing whose sine is one of an angle is neither refused nor clamped. -/
theorem inverseEllipsoid_of_bearing (hs : p.spheroid? = some s) {b : Bearing ℝ}
    (hb : p.bearing s x y = .ok (some b)) (hmem : b.sinAuthalic ∈ Set.Icc (-1 : ℝ) 1) :
    p.inverseEllipsoid x y = .ok ⟨Exact.atan2 b.east b.north,
      s.geographicLatitude (Real.arcsin b.sinAuthalic)⟩ := by
  have hsine : ¬1 + tolerance < |b.sinAuthalic| := by
    have hle : |b.sinAuthalic| ≤ 1 := abs_le.mpr hmem
    linarith [tolerance_pos]
  have hclamp : Arith.clamp (-1) 1 b.sinAuthalic = b.sinAuthalic := Exact.clamp_of_mem hmem
  unfold inverseEllipsoid
  simp only [hs, hb]
  change (if 1 + tolerance < |b.sinAuthalic| then _ else _) = _
  rw [if_neg hsine]
  change Except.ok (⟨_, s.geographicLatitude (Real.arcsin (Arith.clamp (-1) 1 b.sinAuthalic))⟩ :
    Coordinate ℝ) = _
  rw [hclamp]
  rfl

/-- What the inverse mapping of an ellipsoid gives away from the centre is the position of the sight
on the sphere of the same area, with the latitude converted. -/
theorem inverseEllipsoid_of_frame (hs : p.spheroid? = some s) (hfitted : s.Fitted)
    (hF : p.HasFrame F) (hfar : tolerance ≤ s.authalicRadius * s.reach x y)
    (hle : s.reach x y ≤ 2) :
    p.inverseEllipsoid x y = .ok ⟨(F.position (ofImage _ _ hle)).first,
      s.geographicLatitude (F.position (ofImage _ _ hle)).second⟩ := by
  have hpos : 0 < s.authalicRadius * s.reach x y := lt_of_lt_of_le tolerance_pos hfar
  have hbearing := (bearing_eq_bearingOfDisc hF s x y).trans
    (bearingOfDisc_of_frame hfitted hF hfar hle)
  rw [inverseEllipsoid_of_bearing hs hbearing (F.sinLatitude_mem _), Exact.atan2_mul hpos]
  rfl

/-- Under a polar aspect the map of the unit sphere is a reduction, and the sine of the latitude is
read off the area of the disc. -/
theorem inverseEllipsoid_polar {e : Ellipsoid ℝ} (he : e.Flattened) (hs : p.spheroid? = some s)
    (hof : s.Of e) {sigma : ℝ} (hpole : p.HasPole sigma) (hne : x * x + y * y ≠ 0)
    (hle : Exact.hypot (x / s.radiusOfArea) (y / s.radiusOfArea) ≤ 2) :
    p.inverseEllipsoid x y =
      .ok ⟨Exact.atan2 (x / s.radiusOfArea) (sigma * (y / s.radiusOfArea)),
        s.geographicLatitude (Real.arcsin (sigma *
          (((x / s.radiusOfArea) ^ 2 + (y / s.radiusOfArea) ^ 2) / 2 - 1)))⟩ := by
  obtain ⟨hradius, hsquare⟩ := Spheroid.radiusOfArea_spec he hof
  set r := s.radiusOfArea
  have hsine : sigma * ((x * x + y * y) / s.poleIntegral - 1) =
      sigma * (((x / r) ^ 2 + (y / r) ^ 2) / 2 - 1) := by
    rw [← hsquare]
    field_simp
  have hdirection : Exact.atan2 x (sigma * y) = Exact.atan2 (x / r) (sigma * (y / r)) := by
    rw [← Exact.atan2_mul (inv_pos.mpr hradius) x]
    congr 1 <;> ring
  have hbearing := bearing_polar hpole s x y
  rw [if_neg hne] at hbearing
  have hmem : sigma * ((x * x + y * y) / s.poleIntegral - 1) ∈ Set.Icc (-1 : ℝ) 1 := by
    have hsq := Exact.hypot_sq (x / r) (y / r)
    have hnonneg := Exact.hypot_nonneg (x / r) (y / r)
    rw [hsine, ← hsq]
    cases hpole <;> constructor <;> nlinarith
  rw [inverseEllipsoid_of_bearing hs hbearing hmem, hdirection, hsine]

end Projection

end EqualArea
