import EqualArea.Projection.Sphere
import EqualArea.Proofs.Construction

/-!
# The mappings of the sphere over the reals

What the two mappings of the unit sphere compute, aspect by aspect.

* `forwardSphere_of_frame`, `inverseSphere_of_frame` — under an equatorial or oblique aspect, the
  map of the sight to the disc, and the position of the sight of a point of the disc.
* `Projection.TakenForSphereCentre` — the points of the map that the inverse mapping takes for the
  centre.
* `forwardSphere_polar`, `inverseSphere_polar` — under a polar aspect, the distance on the map is
  the chord of the distance from the pole.
-/

namespace EqualArea

namespace Projection

open Sight (arc chord halfCos ofImage sin_arc cos_arc)

variable {p : Projection ℝ} {F : Frame}

/-! ## Equatorial and oblique aspects -/

/-- The denominator of the mapping is the height above the antipode. -/
lemma scaledPoint_eq (v : Sight) :
    scaledPoint (1 + v.up) v.east v.north =
      if 1 + v.up ≤ tolerance then .error .beyondAntipode else .ok v.image := rfl

theorem forwardSphere_of_frame (hF : p.HasFrame F) (lambda phi : ℝ) :
    p.forwardSphere lambda phi =
      if 1 + (F.sight lambda phi).up ≤ tolerance then .error .beyondAntipode
      else .ok (F.sight lambda phi).image := by
  rw [← scaledPoint_eq]
  cases hF with
  | equatorial h =>
    simp only [forwardSphere, h]
    have hup : (Frame.equator.sight lambda phi).up = Real.cos phi * Real.cos lambda := by
      simp [Frame.equator, Frame.sight]
    have hnorth : (Frame.equator.sight lambda phi).north = Real.sin phi := by
      simp [Frame.equator, Frame.sight]
    rw [hup, hnorth]
    rfl
  | oblique h unit =>
    simp only [forwardSphere, h, Frame.sight, ← add_assoc]
    rfl

/-- What lies outside the disc is refused. -/
lemma inverseSphere_outside {x y : ℝ} (h : 2 < Exact.hypot x y) :
    p.inverseSphere x y = .error .offSphere := by
  have hrim : 1 < Exact.hypot x y * 0.5 := by linarith
  exact if_pos hrim

lemma hypot_le_of_inverseSphere {x y : ℝ} {c : Coordinate ℝ} (h : p.inverseSphere x y = .ok c) :
    Exact.hypot x y ≤ 2 := by
  by_contra hout
  rw [inverseSphere_outside (not_le.mp hout)] at h
  cases h

/-- A quarter turn east on the equator lies on the horizon of every centre. -/
lemma forwardSphere_quarter_turn (hF : p.HasFrame F) :
    p.forwardSphere (Real.pi / 2) 0 = .ok ⟨Real.sqrt 2, 0⟩ := by
  obtain ⟨hup, himage⟩ := F.sight_quarter_turn
  have htolerance := tolerance_lt_one
  rw [forwardSphere_of_frame hF, hup, himage, if_neg (by linarith)]

/-- The centre has the longitude zero either way. -/
lemma direction_eq (x y : ℝ) : direction x y = Exact.atan2 x y := by
  unfold direction
  split_ifs with h
  · obtain ⟨hy, hx⟩ : y = 0 ∧ x = 0 := by simpa using h
    rw [hx, hy, Exact.atan2_zero_zero]
  · rfl

/-- The formulas of the equatorial aspect are those of the oblique one for the frame of the
equator. -/
lemma inverseSphere_eq (hF : p.HasFrame F) {x y : ℝ} (hfar : tolerance < Exact.hypot x y)
    (hle : Exact.hypot x y ≤ 2) {phi : ℝ}
    (hphi : phi = Real.arcsin (Real.cos (arc x y) * F.sin +
      y * Real.sin (arc x y) * F.cos / Exact.hypot x y)) :
    p.inverseSphere x y = .ok ⟨direction (x * Real.sin (arc x y) * F.cos)
      ((Real.cos (arc x y) - Real.sin phi * F.sin) * Exact.hypot x y), phi⟩ := by
  have hhalf : Exact.hypot x y * 0.5 = Exact.hypot x y / 2 := by ring
  have hinside : ¬1 < Exact.hypot x y / 2 := by linarith
  have hcentre : ¬Exact.hypot x y ≤ tolerance := not_le.mpr hfar
  have harc : 2 * Real.arcsin (Exact.hypot x y * 0.5) = arc x y := by rw [hhalf, arc]
  change (if 1 < Exact.hypot x y * 0.5 then _ else _) = _
  rw [hhalf, if_neg hinside]
  cases hF with
  | equatorial h =>
    have hequator : Real.arcsin (y * Real.sin (arc x y) / Exact.hypot x y) = phi := by
      simp [hphi, Frame.equator]
    simp only [h, Exact.hypot_eq, Exact.asin_eq, Exact.sin_eq, Exact.cos_eq,
      Exact.ofScientific_eq, harc, hcentre, if_false, hequator]
    simp [Frame.equator]
  | oblique h unit =>
    simp only [h, Exact.hypot_eq, Exact.asin_eq, Exact.sin_eq, Exact.cos_eq,
      Exact.ofScientific_eq, harc, hcentre, if_false, ← hphi]

/-- The sine of the latitude, as the mapping computes it from arc and bearing. -/
lemma sinLatitude_ofImage (F : Frame) {x y : ℝ} (hpos : 0 < Exact.hypot x y)
    (hle : Exact.hypot x y ≤ 2) :
    Real.cos (arc x y) * F.sin + y * Real.sin (arc x y) * F.cos / Exact.hypot x y =
      F.sinLatitude (ofImage x y hle) := by
  rw [sin_arc hle, cos_arc hle]
  simp only [Frame.sinLatitude, ofImage]
  field_simp

/-- The direction of the longitude, as the mapping computes it, is a positive multiple of that of
the sight. -/
lemma longitude_ofImage (hcos : 0 < F.cos) {x y : ℝ} (hpos : 0 < Exact.hypot x y)
    (hle : Exact.hypot x y ≤ 2) :
    direction (x * Real.sin (arc x y) * F.cos)
        ((Real.cos (arc x y) - F.sinLatitude (ofImage x y hle) * F.sin) * Exact.hypot x y) =
      Exact.atan2 (ofImage x y hle).east (F.meridional (ofImage x y hle)) := by
  have heast : x * Real.sin (arc x y) * F.cos =
      Exact.hypot x y * F.cos * (ofImage x y hle).east := by
    rw [sin_arc hle]
    simp only [ofImage]
    ring
  have hmeridional :
      (Real.cos (arc x y) - F.sinLatitude (ofImage x y hle) * F.sin) * Exact.hypot x y =
        Exact.hypot x y * F.cos * F.meridional (ofImage x y hle) := by
    rw [cos_arc hle]
    simp only [Frame.sinLatitude, Frame.meridional, ofImage]
    linear_combination -(Exact.hypot x y * (1 - (x ^ 2 + y ^ 2) / 2)) * F.unit
  rw [direction_eq, heast, hmeridional, Exact.atan2_mul (mul_pos hpos hcos)]

/-- Outside the tolerance of the centre a point of the disc goes to the position of its sight. -/
theorem inverseSphere_of_frame (hF : p.HasFrame F) (hcos : 0 < F.cos) {x y : ℝ}
    (hfar : tolerance < Exact.hypot x y) (hle : Exact.hypot x y ≤ 2) :
    p.inverseSphere x y = .ok (F.position (ofImage x y hle)) := by
  have hpos : 0 < Exact.hypot x y := tolerance_pos.trans hfar
  have hmem := F.sinLatitude_mem (ofImage x y hle)
  rw [inverseSphere_eq hF hfar hle rfl, sinLatitude_ofImage F hpos hle,
    Real.sin_arcsin hmem.1 hmem.2, longitude_ofImage hcos hpos hle]
  rfl

/-- The point of the horizon due east of a centre is a quarter turn east on the equator. -/
lemma inverseSphere_quarter_turn (hF : p.HasFrame F) (hcos : 0 < F.cos) :
    p.inverseSphere (Real.sqrt 2) 0 = .ok ⟨Real.pi / 2, 0⟩ := by
  obtain ⟨hup, himage⟩ := F.sight_quarter_turn
  have hpi := Real.pi_pos
  have htolerance := tolerance_lt_one
  have hsqrt := Real.one_lt_sqrt_two
  have hlt := (F.sight (Real.pi / 2) 0).hypot_image_lt (by rw [hup]; norm_num)
  have hsight := (F.sight (Real.pi / 2) 0).ofImage_image (by rw [hup]; norm_num)
  have hfar : tolerance < Exact.hypot (Real.sqrt 2) 0 := by
    rw [Exact.hypot_zero_right (Real.sqrt_nonneg 2)]
    linarith
  simp only [himage] at hlt hsight
  rw [inverseSphere_of_frame hF hcos hfar hlt.le, hsight,
    F.position_sight ⟨by linarith, by linarith⟩ ⟨by linarith, by linarith⟩]

/-- A point of the map whose latitude is not computed, since the inverse mapping of the sphere takes
it for the centre. -/
def TakenForSphereCentre (p : Projection ℝ) (x y : ℝ) : Prop :=
  match p.aspect with
  | .equatorial | .oblique => Exact.hypot x y ≤ tolerance
  | .northPolar | .southPolar => False

lemma HasFrame.takenForSphereCentre_iff (hF : p.HasFrame F) {x y : ℝ} :
    p.TakenForSphereCentre x y ↔ Exact.hypot x y ≤ tolerance := by
  cases hF with
  | equatorial h => simp only [TakenForSphereCentre, h]
  | oblique h unit => simp only [TakenForSphereCentre, h]

/-! ## Polar aspects -/

/-- The distance from the pole on the map is the chord of the polar distance. -/
theorem forwardSphere_polar {sigma : ℝ} (hpole : p.HasPole sigma) (lambda phi : ℝ) :
    p.forwardSphere lambda phi =
      if |phi + p.latitude| < tolerance then .error .antipode
      else .ok ⟨chord (Real.pi / 2 + sigma * phi) * Real.sin lambda,
        sigma * (chord (Real.pi / 2 + sigma * phi) * Real.cos lambda)⟩ := by
  cases hpole with
  | north h =>
    have hhalf : Real.pi / 4 - phi * 0.5 = (Real.pi / 2 + -1 * phi) / 2 := by ring
    simp only [forwardSphere, h, Exact.abs_eq, Exact.sin_eq, Exact.cos_eq, Exact.pi_eq,
      Exact.ofScientific_eq, hhalf, chord, neg_mul, one_mul]
  | south h =>
    have hhalf : Real.pi / 4 - phi * 0.5 = Real.pi / 2 - (Real.pi / 2 + 1 * phi) / 2 := by ring
    simp only [forwardSphere, h, Exact.abs_eq, Exact.sin_eq, Exact.cos_eq, Exact.pi_eq,
      Exact.ofScientific_eq, hhalf, Real.cos_pi_div_two_sub, chord, one_mul]

theorem inverseSphere_polar {sigma : ℝ} (hpole : p.HasPole sigma) {x y : ℝ}
    (hle : Exact.hypot x y ≤ 2) :
    p.inverseSphere x y =
      .ok ⟨Exact.atan2 x (sigma * y), sigma * (arc x y - Real.pi / 2)⟩ := by
  have hhalf : Exact.hypot x y * 0.5 = Exact.hypot x y / 2 := by ring
  have hinside : ¬1 < Exact.hypot x y / 2 := by linarith
  cases hpole with
  | north h =>
    simp only [inverseSphere, h, Exact.hypot_eq, Exact.asin_eq, Exact.atan2_eq,
      Exact.ofScientific_eq, Exact.quarterTurn_eq, hhalf, hinside, if_false, arc, neg_one_mul,
      neg_sub]
  | south h =>
    simp only [inverseSphere, h, Exact.hypot_eq, Exact.asin_eq, Exact.atan2_eq,
      Exact.ofScientific_eq, Exact.quarterTurn_eq, hhalf, hinside, if_false, arc, one_mul]

end Projection

end EqualArea
