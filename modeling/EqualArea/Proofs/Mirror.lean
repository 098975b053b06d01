import EqualArea.Proofs.Authalic.Symmetry
import EqualArea.Proofs.Ellipsoid.Mapping
import EqualArea.Proofs.Sphere.Mapping

/-!
# North and south

Every projection has a mirror image on the other hemisphere, and its mappings are those of the
projection seen in the mirror.

* `Aspect.mirrored`, `Projection.mirrored`, `Coordinate.mirrored` — the mirror at the equator, of an
  aspect, of a projection, and of a position or a point of a map.
* `centredAt_neg` — a centre on the other side of the equator gives the mirror image.
* `forwardSphere_mirrored`, `inverseSphere_mirrored`, `forwardEllipsoid_mirrored`,
  `inverseEllipsoid_mirrored` — the four mappings.
* `mirror_symmetry` — the same for projections that can be built.

**Design.**  The lemmas are about any projection, also one that no centre gives, so none of them
asks for a tolerance or a range.  A mirrored answer is the answer mapped through the mirror: a point
that is refused stays so, for the same reason.
-/

namespace EqualArea

/-- The aspect on the other hemisphere. -/
def Aspect.mirrored : Aspect → Aspect
  | northPolar => southPolar
  | southPolar => northPolar
  | equatorial => equatorial
  | oblique => oblique

/-- A position on the other hemisphere, or a point on the other half of the map. -/
def Coordinate.mirrored (c : Coordinate ℝ) : Coordinate ℝ := ⟨c.first, -c.second⟩

/-- The tests on the latitude of a centre do not see its sign, but for the choice of the pole. -/
lemma Aspect.ofLatitude_neg {latitude : ℝ} {aspect : Aspect}
    (h : Aspect.ofLatitude latitude = .ok aspect) :
    Aspect.ofLatitude (-latitude) = .ok aspect.mirrored := by
  rw [Aspect.ofLatitude_eq] at h
  rw [Aspect.ofLatitude_eq, abs_neg]
  split_ifs at h with hfar hpole hsouth hequator
  · obtain rfl := Except.ok.inj h
    rw [if_neg hfar, if_pos hpole, if_neg (by linarith)]
    rfl
  · obtain rfl := Except.ok.inj h
    have hpi := Real.pi_gt_three
    have htolerance := tolerance_lt_one
    rw [if_neg hfar, if_pos hpole, if_pos]
    · rfl
    · rw [abs_of_nonneg (not_lt.mp hsouth)] at hpole
      linarith [(abs_lt.mp hpole).1]
  · obtain rfl := Except.ok.inj h
    rw [if_neg hfar, if_neg hpole, if_pos hequator]
    rfl
  · obtain rfl := Except.ok.inj h
    rw [if_neg hfar, if_neg hpole, if_neg hequator]
    rfl

namespace Projection

/-- The projection whose centre lies on the other hemisphere. -/
def mirrored (p : Projection ℝ) : Projection ℝ where
  aspect := p.aspect.mirrored
  latitude := -p.latitude
  sinCentre := -p.sinCentre
  cosCentre := p.cosCentre
  spheroid? := p.spheroid?

/-- A bearing seen in the mirror keeps its direction. -/
def Bearing.mirrored (b : Bearing ℝ) : Bearing ℝ := ⟨-b.sinAuthalic, b.east, b.north⟩

variable {p : Projection ℝ} {e : Ellipsoid ℝ} {latitude sigma : ℝ}

/-! ## Construction -/

lemma ofSphere_neg (aspect : Aspect) (latitude : ℝ) :
    ofSphere aspect.mirrored (-latitude) = (ofSphere aspect latitude).mirrored := by
  cases aspect <;> simp [ofSphere, mirrored, Aspect.mirrored]

/-- The stretch of an oblique projection is even. -/
lemma ofEllipsoid_neg (aspect : Aspect) (latitude : ℝ) (e : Ellipsoid ℝ) :
    ofEllipsoid aspect.mirrored (-latitude) e = (ofEllipsoid aspect latitude e).mirrored := by
  cases aspect <;> simp [ofEllipsoid, mirrored, Aspect.mirrored, Spheroid.authalicLatitude_neg]

/-- The mirror image has its centre on the other side of the equator. -/
theorem centredAt_neg (hp : centredAt latitude e = .ok p) :
    centredAt (-latitude) e = .ok p.mirrored := by
  obtain ⟨aspect, haspect, rfl⟩ := centredAt_eq_ok.mp hp
  refine centredAt_eq_ok.mpr ⟨_, Aspect.ofLatitude_neg haspect, ?_⟩
  rw [ofSphere_neg, ofEllipsoid_neg, apply_ite mirrored]

lemma HasPole.mirrored (h : p.HasPole sigma) : p.mirrored.HasPole (-sigma) := by
  cases h with
  | north h =>
    rw [neg_neg]
    exact .south (congrArg Aspect.mirrored h)
  | south h => exact .north (congrArg Aspect.mirrored h)

/-! ## The mappings of the sphere -/

lemma scaledPoint_neg (denominator easting northing : ℝ) :
    scaledPoint denominator easting (-northing) =
      (scaledPoint denominator easting northing).map Coordinate.mirrored := by
  unfold scaledPoint
  split_ifs
  · rfl
  · simp only [Except.map, Coordinate.mirrored, mul_neg]

theorem forwardSphere_mirrored (p : Projection ℝ) (lambda phi : ℝ) :
    p.mirrored.forwardSphere lambda (-phi) =
      (p.forwardSphere lambda phi).map Coordinate.mirrored := by
  rcases p.hasPole_or with ⟨sigma, hpole⟩ | h | h
  · have hopposite : |-phi + p.mirrored.latitude| = |phi + p.latitude| := by
      rw [mirrored, ← neg_add, abs_neg]
    rw [forwardSphere_polar hpole.mirrored, forwardSphere_polar hpole, hopposite, neg_mul_neg]
    split_ifs
    · rfl
    · simp only [Except.map, Coordinate.mirrored, neg_mul]
  · have hmirrored : p.mirrored.aspect = .equatorial := congrArg Aspect.mirrored h
    simp only [forwardSphere, h, hmirrored, Exact.sin_eq, Exact.cos_eq, Real.sin_neg, Real.cos_neg,
      scaledPoint_neg]
  · have hmirrored : p.mirrored.aspect = .oblique := congrArg Aspect.mirrored h
    simp only [forwardSphere, h, hmirrored, Exact.sin_eq, Exact.cos_eq, Real.sin_neg, Real.cos_neg]
    rw [← scaledPoint_neg, mirrored]
    congr 1 <;> ring

theorem inverseSphere_mirrored (p : Projection ℝ) (x y : ℝ) :
    p.mirrored.inverseSphere x (-y) = (p.inverseSphere x y).map Coordinate.mirrored := by
  have hhypot := Exact.hypot_neg_right x y
  rcases p.hasPole_or with ⟨sigma, hpole⟩ | h | h
  · rcases le_or_gt (Exact.hypot x y) 2 with hle | hgt
    · have harc : Sight.arc x (-y) = Sight.arc x y := by rw [Sight.arc, hhypot, Sight.arc]
      rw [inverseSphere_polar hpole.mirrored (hhypot.trans_le hle), inverseSphere_polar hpole hle,
        harc, neg_mul_neg]
      simp only [Except.map, Coordinate.mirrored, neg_mul]
    · rw [inverseSphere_outside hgt, inverseSphere_outside (hgt.trans_eq hhypot.symm)]
      rfl
  · have hmirrored : p.mirrored.aspect = .equatorial := congrArg Aspect.mirrored h
    simp only [inverseSphere, h, hmirrored, Exact.hypot_eq, hhypot]
    split_ifs
    · rfl
    · simp only [Except.map, Coordinate.mirrored, neg_zero]
    · simp only [Except.map, Coordinate.mirrored, Exact.asin_eq, neg_mul, neg_div,
        Real.arcsin_neg]
  · have hmirrored : p.mirrored.aspect = .oblique := congrArg Aspect.mirrored h
    -- The sine of the latitude changes its sign with that of the centre, so their product does not.
    have hsine : ∀ a b r : ℝ, a * -p.sinCentre + -y * b * p.cosCentre / r =
        -(a * p.sinCentre + y * b * p.cosCentre / r) := by
      intros
      ring
    simp only [inverseSphere, h, hmirrored, Exact.hypot_eq, hhypot]
    split_ifs
    · rfl
    · simp only [Except.map, Coordinate.mirrored, mirrored, Exact.sin_eq, Real.sin_neg,
        neg_mul_neg]
    · simp only [Except.map, Coordinate.mirrored, mirrored, hsine, Exact.asin_eq, Exact.sin_eq,
        Real.arcsin_neg, Real.sin_neg, neg_mul_neg]

/-! ## The mappings of the ellipsoid -/

theorem forwardEllipsoid_mirrored (p : Projection ℝ) (lambda phi : ℝ) :
    p.mirrored.forwardEllipsoid lambda (-phi) =
      (p.forwardEllipsoid lambda phi).map Coordinate.mirrored := by
  cases hs : p.spheroid? with
  | none => simp only [forwardEllipsoid, mirrored, hs, Except.map]
  | some s =>
    have hs' : p.mirrored.spheroid? = some s := hs
    -- A pole changes its side, and its sign goes with that of the latitude.
    rcases p.hasPole_or with ⟨sigma, hpole⟩ | h | h
    · rw [forwardEllipsoid_polar hs' hpole.mirrored, forwardEllipsoid_polar hs hpole,
        s.authalicLatitude_neg, Real.sin_neg, neg_mul_neg, neg_mul_neg]
      split_ifs
      · rfl
      · simp [Except.map, Coordinate.mirrored, Coordinate.origin]
      · simp only [Except.map, Coordinate.mirrored, neg_mul]
    · have hmirrored : p.mirrored.aspect = .equatorial := congrArg Aspect.mirrored h
      simp only [forwardEllipsoid, hs, hs', h, hmirrored, s.authalicLatitude_neg, Exact.sin_eq,
        Exact.cos_eq, Real.sin_neg, Real.cos_neg]
      cases radialScale (1 + Real.cos (s.authalicLatitude phi) * Real.cos lambda) with
      | error refusal => rfl
      | ok k =>
        refine congrArg Except.ok (Coordinate.ext rfl ?_)
        simp only [Coordinate.mirrored]
        ring
    · have hmirrored : p.mirrored.aspect = .oblique := congrArg Aspect.mirrored h
      have hheight : 1 + p.mirrored.sinCentre * -Real.sin (s.authalicLatitude phi) =
          1 + p.sinCentre * Real.sin (s.authalicLatitude phi) := by rw [mirrored, neg_mul_neg]
      have hcos : p.mirrored.cosCentre = p.cosCentre := rfl
      simp only [forwardEllipsoid, hs, hs', h, hmirrored, s.authalicLatitude_neg, Exact.sin_eq,
        Exact.cos_eq, Real.sin_neg, Real.cos_neg, hheight, hcos]
      cases radialScale (1 + p.sinCentre * Real.sin (s.authalicLatitude phi) +
          p.cosCentre * Real.cos (s.authalicLatitude phi) * Real.cos lambda) with
      | error refusal => rfl
      | ok k =>
        refine congrArg Except.ok (Coordinate.ext rfl ?_)
        simp only [Coordinate.mirrored, mirrored]
        ring

lemma bearing_mirrored (p : Projection ℝ) (s : Spheroid ℝ) (x y : ℝ) :
    p.mirrored.bearing s x (-y) = (p.bearing s x y).map (Option.map Bearing.mirrored) := by
  rcases p.hasPole_or with ⟨sigma, hpole⟩ | h | h
  · rw [bearing_polar hpole.mirrored, bearing_polar hpole, neg_mul_neg, neg_mul_neg]
    split_ifs
    · rfl
    · simp only [Except.map, Option.map_some, Bearing.mirrored, neg_mul]
  · have hmirrored : p.mirrored.aspect = .equatorial := congrArg Aspect.mirrored h
    simp only [bearing, h, hmirrored, bearingOfDisc, Exact.hypot_eq, neg_mul,
      Exact.hypot_neg_right, reduceCtorEq, if_false]
    split_ifs
    · rfl
    · rfl
    · simp only [Except.map, Option.map_some, Bearing.mirrored, neg_div]
  · have hmirrored : p.mirrored.aspect = .oblique := congrArg Aspect.mirrored h
    simp only [bearing, h, hmirrored, bearingOfDisc, Exact.hypot_eq, neg_mul,
      Exact.hypot_neg_right, if_true]
    split_ifs
    · rfl
    · rfl
    · simp only [Except.map, Option.map_some, Bearing.mirrored, mirrored, mul_neg, neg_mul, neg_div,
        neg_neg, neg_add]

/-- A sine is refused or kept in its range on both sides alike. -/
theorem inverseEllipsoid_mirrored (p : Projection ℝ) (x y : ℝ) :
    p.mirrored.inverseEllipsoid x (-y) = (p.inverseEllipsoid x y).map Coordinate.mirrored := by
  cases hs : p.spheroid? with
  | none => simp only [inverseEllipsoid, mirrored, hs, Except.map]
  | some s =>
    have hs' : p.mirrored.spheroid? = some s := hs
    simp only [inverseEllipsoid, hs, hs', bearing_mirrored]
    rcases p.bearing s x y with refusal | _ | b
    · rfl
    · rfl
    · change (if 1 + tolerance < |-b.sinAuthalic| then Except.error Refusal.offEllipsoid
          else Except.ok (⟨Exact.atan2 b.east b.north, s.geographicLatitude
            (Real.arcsin (Arith.clamp (-1) 1 (-b.sinAuthalic)))⟩ : Coordinate ℝ)) =
        Except.map Coordinate.mirrored
          (if 1 + tolerance < |b.sinAuthalic| then Except.error Refusal.offEllipsoid
          else Except.ok ⟨Exact.atan2 b.east b.north, s.geographicLatitude
            (Real.arcsin (Arith.clamp (-1) 1 b.sinAuthalic))⟩)
      rw [abs_neg, Exact.clamp_neg zero_le_one, Real.arcsin_neg, s.geographicLatitude_neg]
      split_ifs <;> rfl

/-! ## Both hemispheres -/

/-- **North and south are mirror images.**  The projection centred on the other side of the equator
is built whenever the one given is; each of its mappings takes a point seen in the mirror to what
the mapping of the other gives, seen in the mirror, and refuses it for the same reason. -/
theorem mirror_symmetry (hp : centredAt latitude e = .ok p) :
    ∃ m, centredAt (-latitude) e = .ok m ∧
      (∀ lambda phi, m.forwardSphere lambda (-phi) =
        (p.forwardSphere lambda phi).map Coordinate.mirrored) ∧
      (∀ x y, m.inverseSphere x (-y) = (p.inverseSphere x y).map Coordinate.mirrored) ∧
      (∀ lambda phi, m.forwardEllipsoid lambda (-phi) =
        (p.forwardEllipsoid lambda phi).map Coordinate.mirrored) ∧
      (∀ x y, m.inverseEllipsoid x (-y) = (p.inverseEllipsoid x y).map Coordinate.mirrored) :=
  ⟨p.mirrored, centredAt_neg hp, p.forwardSphere_mirrored, p.inverseSphere_mirrored,
    p.forwardEllipsoid_mirrored, p.inverseEllipsoid_mirrored⟩

/-- On an ellipsoid with one axis half as long as the other, the meridian of zero longitude runs
down the map of the northern hemisphere and up that of the southern one. -/
theorem mirror_symmetry_of_pole :
    ∃ p m q, centredAt (Real.pi / 2) (⟨1, 1 / 2⟩ : Ellipsoid ℝ) = .ok p ∧
      centredAt (-(Real.pi / 2)) (⟨1, 1 / 2⟩ : Ellipsoid ℝ) = .ok m ∧ 0 < q ∧
      p.forwardEllipsoid 0 0 = .ok ⟨0, -q⟩ ∧ m.forwardEllipsoid 0 0 = .ok ⟨0, q⟩ := by
  set e : Ellipsoid ℝ := ⟨1, 1 / 2⟩
  have he : e.Flattened := Ellipsoid.flattened_half
  have hp := centredAt_pi_div_two he
  have hpole : (ofEllipsoid .northPolar (Real.pi / 2) e).HasPole (-1) := .north rfl
  obtain ⟨m, hm, -, -, hforward, -⟩ := mirror_symmetry hp
  obtain ⟨s, hs, hof, -⟩ := exists_spheroid he hp
  have hq : 0 < s.poleIntegral := hof.poleIntegral_eq ▸ he.poleIntegral_pos
  have hown := hpole.forwardEllipsoid_zero he hs hof 0
  rw [Real.sin_zero, mul_zero, Real.cos_zero, mul_one, neg_one_mul] at hown
  have hmirrored := hforward 0 0
  rw [hown, neg_zero] at hmirrored
  simp only [Except.map, Coordinate.mirrored, neg_neg] at hmirrored
  exact ⟨_, m, _, hp, hm, Real.sqrt_pos.mpr hq, hown, hmirrored⟩

end Projection

end EqualArea
