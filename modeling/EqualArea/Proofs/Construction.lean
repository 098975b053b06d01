import EqualArea.Projection.Basic
import EqualArea.Proofs.Disc

/-!
# Projections that have been built

What is known of a projection over the real numbers because it was built for a centre.

* `Aspect.oblique_bounds` — where an oblique centre lies.
* `Projection.centredAt_eq_ok` — the projections that can be built; by
  `Projection.aspect_of_centredAt` and `Projection.latitude_of_centredAt` they keep their centre.
* `Projection.HasFrame` — the frame in which an equatorial or oblique projection sees the sphere.
* `Projection.HasPole` — the orientation of a polar projection; by `Projection.hasPole_or` there
  is no third kind.

**Design.**  An equatorial projection keeps no sine and cosine of its centre and has formulas of
its own; they are those of the frame of the equator.  The two polar aspects are mirror images.
Statements about two aspects are made of a frame or of an orientation, and split into the aspects
only where a formula is opened.
-/

namespace EqualArea

lemma tolerance_eq : (tolerance : ℝ) = 1e-10 := rfl

lemma tolerance_pos : (0 : ℝ) < tolerance := by
  rw [tolerance_eq]
  norm_num

lemma tolerance_lt_one : (tolerance : ℝ) < 1 := by
  rw [tolerance_eq]
  norm_num

/-- Every real latitude is a number. -/
lemma Aspect.ofLatitude_eq (latitude : ℝ) :
    Aspect.ofLatitude latitude =
      if Real.pi / 2 + tolerance < |latitude| then .error (.badLatitude latitude)
      else if |(|latitude| - Real.pi / 2)| < tolerance then
        .ok (if latitude < 0 then .southPolar else .northPolar)
      else if |latitude| < tolerance then .ok .equatorial
      else .ok .oblique := by
  simp only [Aspect.ofLatitude, Exact.isNaN_eq, Bool.false_eq_true, false_or, Exact.abs_eq,
    Exact.quarterTurn_eq]
  rfl

/-- An oblique centre keeps its distance from the equator and from the poles.  It may lie past a
pole, by exactly the tolerance. -/
theorem Aspect.oblique_bounds {latitude : ℝ} (h : Aspect.ofLatitude latitude = .ok .oblique) :
    tolerance ≤ |latitude| ∧ tolerance ≤ |(|latitude| - Real.pi / 2)| ∧
      |latitude| ≤ Real.pi / 2 + tolerance := by
  rw [Aspect.ofLatitude_eq] at h
  split_ifs at h with hfar hpole hsouth hequator
  · cases h
  · cases h
  · cases h
  · exact ⟨not_lt.mp hequator, not_lt.mp hpole, not_lt.mp hfar⟩

lemma Aspect.ofLatitude_oblique {latitude : ℝ} (hlow : tolerance ≤ |latitude|)
    (hhigh : |latitude| ≤ Real.pi / 2 - tolerance) :
    Aspect.ofLatitude latitude = .ok .oblique := by
  have htolerance := tolerance_pos
  have hgood : ¬Real.pi / 2 + tolerance < |latitude| := by linarith
  have hpole : ¬|(|latitude| - Real.pi / 2)| < tolerance := by
    rw [abs_of_nonpos (by linarith)]
    linarith
  rw [Aspect.ofLatitude_eq, if_neg hgood, if_neg hpole, if_neg (not_lt.mpr hlow)]

lemma Aspect.ofLatitude_zero : Aspect.ofLatitude (0 : ℝ) = .ok .equatorial := by
  have hpi := Real.pi_gt_three
  have htolerance := tolerance_lt_one
  have hgood : ¬Real.pi / 2 + tolerance < |(0 : ℝ)| := by
    rw [abs_zero]
    linarith [tolerance_pos]
  have hpole : ¬|(|(0 : ℝ)| - Real.pi / 2)| < tolerance := by
    rw [abs_zero, abs_of_nonpos (by linarith)]
    linarith
  have hequator : |(0 : ℝ)| < tolerance := by
    rw [abs_zero]
    exact tolerance_pos
  rw [Aspect.ofLatitude_eq, if_neg hgood, if_neg hpole, if_pos hequator]

/-- The centre of a map may lie one radian from the equator. -/
lemma Aspect.ofLatitude_one : Aspect.ofLatitude (1 : ℝ) = .ok .oblique := by
  have hpi := Real.pi_gt_three
  have htolerance : (tolerance : ℝ) < 1 / 10 := by rw [tolerance_eq]; norm_num
  apply Aspect.ofLatitude_oblique <;> rw [abs_one] <;> linarith

lemma Aspect.ofLatitude_of_pole {latitude : ℝ} (h : |latitude| = Real.pi / 2) :
    Aspect.ofLatitude latitude = .ok (if latitude < 0 then .southPolar else .northPolar) := by
  have htolerance := tolerance_pos
  have hgood : ¬Real.pi / 2 + tolerance < |latitude| := by linarith
  have hpole : |(|latitude| - Real.pi / 2)| < tolerance := by
    rw [h, sub_self, abs_zero]
    exact htolerance
  rw [Aspect.ofLatitude_eq, if_neg hgood, if_pos hpole]

namespace Projection

/-- A projection is built for an accepted latitude, and the squared eccentricity alone tells which
of the two kinds it is. -/
theorem centredAt_eq_ok {latitude : ℝ} {e : Ellipsoid ℝ} {p : Projection ℝ} :
    Projection.centredAt latitude e = .ok p ↔
      ∃ aspect, Aspect.ofLatitude latitude = .ok aspect ∧
        p = if e.eccentricitySq = 0 then ofSphere aspect latitude
          else ofEllipsoid aspect latitude e := by
  unfold centredAt
  cases Aspect.ofLatitude latitude with
  | error fault => simp [bind, Except.bind]
  | ok aspect =>
    simp only [bind, Except.bind, pure, Except.pure, Except.ok.injEq, exists_eq_left']
    simp only [Exact.beq_iff]
    exact eq_comm

/-- The aspect of a projection is that of its centre, on a sphere and on an ellipsoid. -/
lemma aspect_of_centredAt {latitude : ℝ} {e : Ellipsoid ℝ} {p : Projection ℝ} {aspect : Aspect}
    (haspect : Aspect.ofLatitude latitude = .ok aspect) (hp : centredAt latitude e = .ok p) :
    p.aspect = aspect := by
  obtain ⟨built, hbuilt, rfl⟩ := centredAt_eq_ok.mp hp
  obtain rfl : aspect = built := Except.ok.inj (haspect.symm.trans hbuilt)
  split_ifs
  · rfl
  · cases aspect <;> rfl

lemma latitude_of_centredAt {latitude : ℝ} {e : Ellipsoid ℝ} {p : Projection ℝ}
    (hp : centredAt latitude e = .ok p) : p.latitude = latitude := by
  obtain ⟨aspect, -, rfl⟩ := centredAt_eq_ok.mp hp
  split_ifs
  · rfl
  · cases aspect <;> rfl

/-- The frame in which an equatorial or oblique projection sees the sphere. -/
inductive HasFrame (p : Projection ℝ) : Frame → Prop
  /-- An equatorial projection has its centre on the equator. -/
  | equatorial (h : p.aspect = .equatorial) : HasFrame p Frame.equator
  /-- An oblique projection keeps sine and cosine of its centre. -/
  | oblique (h : p.aspect = .oblique) (unit : p.sinCentre ^ 2 + p.cosCentre ^ 2 = 1) :
    HasFrame p ⟨p.sinCentre, p.cosCentre, unit⟩

lemma HasFrame.unit {p : Projection ℝ} {F : Frame} (hF : p.HasFrame F)
    (h : p.aspect = .oblique) : p.sinCentre ^ 2 + p.cosCentre ^ 2 = 1 := by
  cases hF with
  | equatorial h' => simp [h] at h'
  | oblique _ unit => exact unit

lemma spheroid?_eq_none {latitude : ℝ} {e : Ellipsoid ℝ} {p : Projection ℝ}
    (he : e.eccentricitySq = 0) (hp : centredAt latitude e = .ok p) : p.spheroid? = none := by
  obtain ⟨aspect, -, rfl⟩ := centredAt_eq_ok.mp hp
  rw [if_pos he]
  rfl

/-- The frame of a projection of a sphere; its axis points north unless the centre lies past a
pole. -/
lemma exists_frame_of_sphere {latitude : ℝ} {e : Ellipsoid ℝ} {p : Projection ℝ}
    (he : e.eccentricitySq = 0) (hp : centredAt latitude e = .ok p)
    (hdisc : p.aspect = .equatorial ∨ p.aspect = .oblique) :
    ∃ F, p.HasFrame F ∧ ((p.aspect = .oblique → |latitude| < Real.pi / 2) → 0 < F.cos) := by
  obtain ⟨aspect, -, rfl⟩ := centredAt_eq_ok.mp hp
  rw [if_pos he] at hdisc ⊢
  rcases hdisc with h | h
  · exact ⟨Frame.equator, .equatorial h, fun _ => one_pos⟩
  · have hsin : (ofSphere aspect latitude).sinCentre = Real.sin latitude := if_pos h
    have hcos : (ofSphere aspect latitude).cosCentre = Real.cos latitude := if_pos h
    have hunit : (ofSphere aspect latitude).sinCentre ^ 2 +
        (ofSphere aspect latitude).cosCentre ^ 2 = 1 := by
      rw [hsin, hcos, Real.sin_sq_add_cos_sq]
    refine ⟨_, .oblique h hunit, fun hoblique => ?_⟩
    change 0 < (ofSphere aspect latitude).cosCentre
    rw [hcos]
    exact Real.cos_pos_of_mem_Ioo (abs_lt.mp (hoblique h))

/-- On which side of the map of a polar projection the meridian of zero longitude lies: below the
north pole, and above the south pole. -/
inductive HasPole (p : Projection ℝ) : ℝ → Prop
  /-- The north pole. -/
  | north (h : p.aspect = .northPolar) : HasPole p (-1)
  /-- The south pole. -/
  | south (h : p.aspect = .southPolar) : HasPole p 1

lemma HasPole.mul_self {p : Projection ℝ} {sigma : ℝ} (h : p.HasPole sigma) :
    sigma * sigma = 1 := by
  cases h <;> norm_num

lemma HasPole.aspect_eq {p : Projection ℝ} {sigma : ℝ} (h : p.HasPole sigma) :
    p.aspect = .northPolar ∨ p.aspect = .southPolar := by
  cases h with
  | north h => exact .inl h
  | south h => exact .inr h

/-- The distance from the pole, of a latitude that is not past a pole. -/
lemma HasPole.polarDistance_mem {p : Projection ℝ} {sigma phi : ℝ} (h : p.HasPole sigma)
    (hphi : phi ∈ Set.Icc (-(Real.pi / 2)) (Real.pi / 2)) :
    Real.pi / 2 + sigma * phi ∈ Set.Icc 0 Real.pi := by
  cases h <;> constructor <;> linarith [hphi.1, hphi.2]

lemma HasPole.cos_polarDistance {p : Projection ℝ} {sigma : ℝ} (h : p.HasPole sigma) (phi : ℝ) :
    Real.cos (Real.pi / 2 + sigma * phi) = -(sigma * Real.sin phi) := by
  rw [add_comm, Real.cos_add_pi_div_two]
  cases h <;> simp

/-- A projection has an orientation unless it is equatorial or oblique. -/
lemma hasPole_or (p : Projection ℝ) :
    (∃ sigma, p.HasPole sigma) ∨ p.aspect = .equatorial ∨ p.aspect = .oblique := by
  cases h : p.aspect with
  | northPolar => exact .inl ⟨-1, .north h⟩
  | southPolar => exact .inl ⟨1, .south h⟩
  | equatorial => exact .inr (.inl rfl)
  | oblique => exact .inr (.inr rfl)

end Projection

end EqualArea
