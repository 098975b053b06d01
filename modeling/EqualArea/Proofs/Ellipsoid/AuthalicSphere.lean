import EqualArea.Proofs.Authalic.Symmetry
import EqualArea.Proofs.Ellipsoid.Mapping
import EqualArea.Proofs.Sphere.Mapping

/-!
# The ellipsoid by way of the authalic sphere

The mappings of an ellipsoid are those of the unit sphere, at authalic latitudes and on a map that
is magnified to the sphere of the same area and stretched.

* `sqrt_mul_eq_chord`, `forwardEllipsoid_chord`, `arcsin_eq_of_arc` — the formulas of a polar aspect
  of the ellipsoid, which read areas, and those of the sphere, which read angles.
* `forwardEllipsoid_eq_disc`, `inverseEllipsoid_eq_disc` — the two mappings under an equatorial or
  oblique aspect.
* `forwardEllipsoid_eq_polar`, `inverseEllipsoid_eq_polar` — the same under a polar aspect.
* `ellipsoid_through_sphere` — both mappings of every projection that can be built.

**Design.**  One and the same projection is run both ways: it keeps the sine and the cosine of the
authalic latitude of its centre, which are those of the centre on the sphere.
-/

namespace EqualArea

/-- What is not past a pole of the ellipsoid is not past a pole of the sphere. -/
lemma Spheroid.Of.authalicLatitude_mem_Icc {s : Spheroid ℝ} {e : Ellipsoid ℝ} (h : s.Of e)
    (he : e.Flattened) {phi : ℝ} (hphi : phi ∈ Set.Icc (-(Real.pi / 2)) (Real.pi / 2)) :
    s.authalicLatitude phi ∈ Set.Icc (-(Real.pi / 2)) (Real.pi / 2) := by
  rw [h.authalicLatitude_eq]
  exact he.authalic_mem_Icc hphi

namespace Projection

open Sight (arc chord ofImage)

variable {p : Projection ℝ} {e : Ellipsoid ℝ} {s : Spheroid ℝ} {lambda phi x y sigma : ℝ}
  {c d : Coordinate ℝ}

/-! ## Equatorial and oblique aspects -/

lemma forwardEllipsoid_eq_disc {F : Frame} (hs : p.spheroid? = some s) (hfitted : s.Fitted)
    (hF : p.HasFrame F) (hellipsoid : p.forwardEllipsoid lambda phi = .ok c)
    (hsphere : p.forwardSphere lambda (s.authalicLatitude phi) = .ok d) : c = s.stretched d := by
  rw [forwardEllipsoid_of_frame hs hfitted hF] at hellipsoid
  rw [forwardSphere_of_frame hF] at hsphere
  split_ifs at hellipsoid hsphere
  rw [← Except.ok.inj hellipsoid, ← Except.ok.inj hsphere]

/-- A point of the map of the sphere that belongs to a point of the map of the ellipsoid. -/
lemma unstretched_eq (hradius : s.radiusOfArea = s.authalicRadius) (x y : ℝ) :
    s.unstretched x y = ⟨x / (s.radiusOfArea * s.stretch), y * s.stretch / s.radiusOfArea⟩ := by
  rw [hradius, Spheroid.unstretched, div_div, mul_comm s.stretch]

lemma inverseEllipsoid_eq_disc {F : Frame} (hs : p.spheroid? = some s) (hfitted : s.Fitted)
    (hF : p.HasFrame F) (hcos : 0 < F.cos) (hellipsoidCentre : ¬p.TakenForEllipsoidCentre s x y)
    (hsphereCentre : ¬p.TakenForSphereCentre (s.unstretched x y).first (s.unstretched x y).second)
    (hellipsoid : p.inverseEllipsoid x y = .ok c)
    (hsphere : p.inverseSphere (s.unstretched x y).first (s.unstretched x y).second = .ok d) :
    c = ⟨d.first, s.geographicLatitude d.second⟩ := by
  rw [hF.takenForEllipsoidCentre_iff hfitted, not_lt] at hellipsoidCentre
  rw [hF.takenForSphereCentre_iff, not_le] at hsphereCentre
  have hle : s.reach x y ≤ 2 := hypot_le_of_inverseSphere hsphere
  rw [inverseEllipsoid_of_frame hs hfitted hF hellipsoidCentre hle] at hellipsoid
  rw [inverseSphere_of_frame hF hcos hsphereCentre hle] at hsphere
  rw [← Except.ok.inj hellipsoid, ← Except.ok.inj hsphere]

/-! ## Polar aspects -/

/-- The distance from a pole on the map, read off the area of the polar cap, is the chord of the
polar distance. -/
lemma sqrt_mul_eq_chord (hpole : p.HasPole sigma) {q : ℝ} (hq : 0 ≤ q) {xi : ℝ}
    (hxi : xi ∈ Set.Icc (-(Real.pi / 2)) (Real.pi / 2)) :
    Real.sqrt (q * (1 + sigma * Real.sin xi)) =
      Real.sqrt (q / 2) * chord (Real.pi / 2 + sigma * xi) := by
  have hchord := Sight.chord_nonneg (hpole.polarDistance_mem hxi)
  have hsquare : q * (1 + sigma * Real.sin xi) =
      (Real.sqrt (q / 2) * chord (Real.pi / 2 + sigma * xi)) ^ 2 := by
    rw [mul_pow, Real.sq_sqrt (by positivity), Sight.chord_sq, hpole.cos_polarDistance]
    ring
  rw [hsquare, Real.sqrt_sq (mul_nonneg (Real.sqrt_nonneg _) hchord)]

/-- A point that is not taken for the pole lies at a multiple of the chord of its polar distance on
the sphere. -/
lemma forwardEllipsoid_chord (he : e.Flattened) (hs : p.spheroid? = some s) (hof : s.Of e)
    (hpole : p.HasPole sigma) (hphi : phi ∈ Set.Icc (-(Real.pi / 2)) (Real.pi / 2))
    (hregular : ¬p.TakenForPole phi) (lambda : ℝ) :
    p.forwardEllipsoid lambda phi =
      if |Real.pi / 2 - sigma * phi| < tolerance then .error .antipode
      else .ok
        ⟨s.radiusOfArea *
            (chord (Real.pi / 2 + sigma * s.authalicLatitude phi) * Real.sin lambda),
          s.radiusOfArea *
            (sigma * (chord (Real.pi / 2 + sigma * s.authalicLatitude phi) * Real.cos lambda))⟩ := by
  have hq : 0 ≤ s.poleIntegral := hof.poleIntegral_eq ▸ he.poleIntegral_pos.le
  have hxi := hof.authalicLatitude_mem_Icc he hphi
  rw [takenForPole_iff hs hpole] at hregular
  rw [forwardEllipsoid_polar hs hpole, if_neg hregular, sqrt_mul_eq_chord hpole hq hxi,
    s.radiusOfArea_eq_sqrt]
  congr 3 <;> ring

lemma forwardEllipsoid_eq_polar (he : e.Flattened) (hs : p.spheroid? = some s) (hof : s.Of e)
    (hpole : p.HasPole sigma) (hphi : phi ∈ Set.Icc (-(Real.pi / 2)) (Real.pi / 2))
    (hregular : ¬p.TakenForPole phi) (hellipsoid : p.forwardEllipsoid lambda phi = .ok c)
    (hsphere : p.forwardSphere lambda (s.authalicLatitude phi) = .ok d) :
    c = ⟨s.radiusOfArea * d.first, s.radiusOfArea * d.second⟩ := by
  rw [forwardEllipsoid_chord he hs hof hpole hphi hregular] at hellipsoid
  rw [forwardSphere_polar hpole] at hsphere
  split_ifs at hellipsoid hsphere
  rw [← Except.ok.inj hellipsoid, ← Except.ok.inj hsphere]

/-- The latitude whose sine is read off an area is the one read off the arc from the pole. -/
lemma arcsin_eq_of_arc (hpole : p.HasPole sigma) {u v : ℝ} (hle : Exact.hypot u v ≤ 2) :
    Real.arcsin (sigma * ((u ^ 2 + v ^ 2) / 2 - 1)) = sigma * (arc u v - Real.pi / 2) := by
  obtain ⟨hlow, hhigh⟩ := Sight.arc_mem u v
  have hsine : sigma * ((u ^ 2 + v ^ 2) / 2 - 1) =
      Real.sin (sigma * (arc u v - Real.pi / 2)) := by
    have hcos := Sight.cos_arc hle
    cases hpole with
    | north =>
      rw [neg_one_mul, neg_one_mul, neg_sub, neg_sub, Real.sin_pi_div_two_sub, hcos]
    | south =>
      rw [one_mul, one_mul, Real.sin_sub_pi_div_two, hcos]
      ring
  rw [hsine]
  -- The arc is at most a half turn, so with a quarter turn taken away it is a latitude.
  cases hpole <;> apply Real.arcsin_sin <;> linarith

lemma inverseEllipsoid_eq_polar (he : e.Flattened) (hs : p.spheroid? = some s) (hof : s.Of e)
    (hpole : p.HasPole sigma) (hcentre : ¬p.TakenForEllipsoidCentre s x y)
    (hellipsoid : p.inverseEllipsoid x y = .ok c)
    (hsphere : p.inverseSphere (x / s.radiusOfArea) (y / s.radiusOfArea) = .ok d) :
    c = ⟨d.first, s.geographicLatitude d.second⟩ := by
  have hle := hypot_le_of_inverseSphere hsphere
  rw [hpole.takenForEllipsoidCentre_iff] at hcentre
  rw [inverseEllipsoid_polar he hs hof hpole hcentre hle, arcsin_eq_of_arc hpole hle] at hellipsoid
  rw [inverseSphere_polar hpole hle] at hsphere
  rw [← Except.ok.inj hellipsoid, ← Except.ok.inj hsphere]

/-! ## All aspects -/

/-- **An ellipsoid is mapped like its authalic sphere.**  To the plane, the point of the map is that
of the unit sphere at the authalic latitude, magnified and stretched; from the plane, the longitude
is the one of the sphere, and the latitude is converted from that of the sphere. -/
theorem ellipsoid_through_sphere {latitude : ℝ} (he : e.Flattened)
    (hp : centredAt latitude e = .ok p)
    (hoblique : p.aspect = .oblique → |latitude| < Real.pi / 2) :
    ∃ s, p.spheroid? = some s ∧ s.Of e ∧
      (∀ lambda phi c d, |phi| ≤ Real.pi / 2 → ¬p.TakenForPole phi →
        p.forwardEllipsoid lambda phi = .ok c →
        p.forwardSphere lambda (s.authalicLatitude phi) = .ok d →
          c = ⟨s.radiusOfArea * s.stretch * d.first, s.radiusOfArea / s.stretch * d.second⟩) ∧
      (∀ x y c d, ¬p.TakenForEllipsoidCentre s x y →
        ¬p.TakenForSphereCentre (x / (s.radiusOfArea * s.stretch))
          (y * s.stretch / s.radiusOfArea) →
        p.inverseEllipsoid x y = .ok c →
        p.inverseSphere (x / (s.radiusOfArea * s.stretch)) (y * s.stretch / s.radiusOfArea) =
          .ok d →
          c = ⟨d.first, s.geographicLatitude d.second⟩) := by
  obtain ⟨s, hs, hof, hframe⟩ := exists_spheroid he hp
  refine ⟨s, hs, hof, ?_, ?_⟩
  · intro lambda phi c d hphi hregular hellipsoid hsphere
    -- A polar aspect has no stretch, and the others see the same points from the same frame.
    rcases p.hasPole_or with ⟨sigma, hpole⟩ | hdisc
    · rw [stretch_of_pole he hp hs hpole, mul_one, div_one]
      exact forwardEllipsoid_eq_polar he hs hof hpole (abs_le.mp hphi) hregular hellipsoid hsphere
    · obtain ⟨hfitted, F, hF⟩ := hframe hdisc
      rw [hfitted.radiusOfArea_eq he hof]
      exact forwardEllipsoid_eq_disc hs hfitted hF hellipsoid hsphere
  · intro x y c d hellipsoidCentre hsphereCentre hellipsoid hsphere
    rcases p.hasPole_or with ⟨sigma, hpole⟩ | hdisc
    · rw [stretch_of_pole he hp hs hpole, mul_one, mul_one] at hsphere
      exact inverseEllipsoid_eq_polar he hs hof hpole hellipsoidCentre hellipsoid hsphere
    · obtain ⟨hfitted, -⟩ := hframe hdisc
      obtain ⟨F, hF, hcos⟩ := exists_frame_cos_pos ⟨he.pos.le, he.lt_one⟩ hp hoblique hdisc
      have hpoint := unstretched_eq (hfitted.radiusOfArea_eq he hof) x y
      refine inverseEllipsoid_eq_disc hs hfitted hF hcos hellipsoidCentre ?_ hellipsoid ?_
      · rwa [hpoint]
      · rwa [hpoint]

/-- On an ellipsoid with one axis half as long as the other, the point a quarter turn east of the
meridian of an oblique centre is mapped by way of the sphere, there and back. -/
theorem ellipsoid_through_sphere_quarter_turn :
    ∃ p s, centredAt 1 (⟨1, 1 / 2⟩ : Ellipsoid ℝ) = .ok p ∧ p.spheroid? = some s ∧
      p.forwardSphere (Real.pi / 2) 0 = .ok ⟨Real.sqrt 2, 0⟩ ∧
      p.forwardEllipsoid (Real.pi / 2) 0 = .ok ⟨s.radiusOfArea * s.stretch * Real.sqrt 2, 0⟩ ∧
      p.inverseSphere (Real.sqrt 2) 0 = .ok ⟨Real.pi / 2, 0⟩ ∧
      p.inverseEllipsoid (s.radiusOfArea * s.stretch * Real.sqrt 2) 0 = .ok ⟨Real.pi / 2, 0⟩ := by
  set e : Ellipsoid ℝ := ⟨1, 1 / 2⟩
  have hpi := Real.pi_gt_three
  have he : e.Flattened := Ellipsoid.flattened_half
  have hp : centredAt 1 e = .ok (ofEllipsoid .oblique 1 e) := centredAt_one he
  set p := ofEllipsoid .oblique 1 e
  have hlt : p.aspect = .oblique → |(1 : ℝ)| < Real.pi / 2 := by
    intro
    rw [abs_one]
    linarith
  obtain ⟨s, hs, hof, hforth, hback⟩ := ellipsoid_through_sphere he hp hlt
  obtain ⟨-, -, hfit⟩ := spheroid_of_centredAt ⟨he.pos.le, he.lt_one⟩ hp hs
  have hfitted : s.Fitted := hfit (.inr rfl)
  obtain ⟨F, hF, hcos⟩ := exists_frame_cos_pos ⟨he.pos.le, he.lt_one⟩ hp hlt (.inr rfl)
  obtain ⟨hradius, -⟩ := Spheroid.radiusOfArea_spec he hof
  have hsphere := forwardSphere_quarter_turn hF
  have hsphereInverse := inverseSphere_quarter_turn hF hcos
  have hauthalic : s.authalicLatitude 0 = 0 := by rw [hof.authalicLatitude_eq, e.authalic_zero]
  have hgeographic : s.geographicLatitude 0 = 0 := s.ellipsoid.geographicLatitude_zero _ _
  set x := s.radiusOfArea * s.stretch * Real.sqrt 2 with hx
  have hellipsoid := forwardEllipsoid_quarter_turn hs hof hfitted hF
  have hpoint : s.stretched ⟨Real.sqrt 2, 0⟩ = ⟨x, 0⟩ := by
    have hsame := hforth (Real.pi / 2) 0 _ _ (by rw [abs_zero]; linarith)
      (hF.not_takenForPole 0) hellipsoid (by rw [hauthalic, hsphere])
    rwa [mul_zero] at hsame
  rw [hpoint] at hellipsoid
  have hsqrt := Real.one_lt_sqrt_two
  have htolerance := tolerance_lt_one
  have hreach : s.reach x 0 = Real.sqrt 2 := by
    have hstretched := hfitted.reach_stretched ⟨Real.sqrt 2, 0⟩
    rwa [hpoint, Exact.hypot_zero_right (Real.sqrt_nonneg 2)] at hstretched
  have hfar : tolerance ≤ s.authalicRadius * s.reach x 0 := by
    rw [hreach]
    exact htolerance.le.trans (one_le_radius_mul_sqrt_two he hof hfitted)
  have hle : s.reach x 0 ≤ 2 := by
    rw [hreach]
    linarith [Real.sqrt_two_lt_three_halves]
  have heast : x / (s.radiusOfArea * s.stretch) = Real.sqrt 2 :=
    mul_div_cancel_left₀ _ (mul_ne_zero hradius.ne' hfitted.stretch_ne_zero)
  have hnorth : 0 * s.stretch / s.radiusOfArea = 0 := by rw [zero_mul, zero_div]
  have hinverse := inverseEllipsoid_of_frame hs hfitted hF hfar hle
  have hvalue := hback x 0 _ ⟨Real.pi / 2, 0⟩
    (by rwa [hF.takenForEllipsoidCentre_iff hfitted, not_lt])
    (by
      rw [heast, hnorth, hF.takenForSphereCentre_iff, not_le,
        Exact.hypot_zero_right (Real.sqrt_nonneg 2)]
      linarith)
    hinverse (by rw [heast, hnorth, hsphereInverse])
  rw [hvalue, hgeographic] at hinverse
  exact ⟨p, s, hp, hs, hsphere, hellipsoid, hsphereInverse, hinverse⟩

end Projection

end EqualArea
