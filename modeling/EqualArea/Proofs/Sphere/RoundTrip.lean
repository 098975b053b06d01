import EqualArea.Proofs.Sphere.Mapping

/-!
# There and back on the sphere

Over the real numbers the two mappings of the sphere undo each other, in all four aspects, as long
as neither is stopped by a tolerance.

* `forward_then_inverse_disc`, `inverse_then_forward_disc` — the two directions under an equatorial
  or oblique aspect.
* `forward_then_inverse_polar`, `inverse_then_forward_polar` — the same under a polar aspect.
* `sphere_round_trip` — both directions for every projection of a sphere that can be built.
-/

namespace EqualArea

namespace Projection

open Sight (arc chord)

variable {p : Projection ℝ} {lambda phi x y : ℝ} {c : Coordinate ℝ}

/-! ## Equatorial and oblique aspects -/

lemma forward_then_inverse_disc {F : Frame} (hF : p.HasFrame F) (hcos : 0 < F.cos)
    (hlambda : lambda ∈ Set.Ioc (-Real.pi) Real.pi)
    (hphi : phi ∈ Set.Ioo (-(Real.pi / 2)) (Real.pi / 2))
    (hforward : p.forwardSphere lambda phi = .ok c)
    (hfar : tolerance < Exact.hypot c.first c.second) :
    p.inverseSphere c.first c.second = .ok ⟨lambda, phi⟩ := by
  rw [forwardSphere_of_frame hF] at hforward
  split_ifs at hforward with hup
  have hc : (F.sight lambda phi).image = c := Except.ok.inj hforward
  have hup' : -1 < (F.sight lambda phi).up := by linarith [tolerance_pos]
  have hle := ((F.sight lambda phi).hypot_image_lt hup').le
  rw [← hc] at hfar ⊢
  rw [inverseSphere_of_frame hF hcos hfar hle, Sight.ofImage_image _ hup',
    F.position_sight hlambda hphi]

lemma inverse_then_forward_disc {F : Frame} (hF : p.HasFrame F) (hcos : 0 < F.cos)
    (hfar : tolerance < Exact.hypot x y) (hle : Exact.hypot x y ≤ 2)
    (hinverse : p.inverseSphere x y = .ok c) {d : Coordinate ℝ}
    (hforward : p.forwardSphere c.first c.second = .ok d) : d = ⟨x, y⟩ := by
  rw [inverseSphere_of_frame hF hcos hfar hle] at hinverse
  have hc : F.position (Sight.ofImage x y hle) = c := Except.ok.inj hinverse
  rw [forwardSphere_of_frame hF, ← hc, F.sight_position] at hforward
  split_ifs at hforward with hup
  have hup' : -1 < (Sight.ofImage x y hle).up := by linarith [tolerance_pos]
  rw [← Except.ok.inj hforward, Sight.image_ofImage (Sight.hypot_lt_of_up hle hup')]

/-! ## Polar aspects -/

lemma forward_then_inverse_polar {sigma : ℝ} (hpole : p.HasPole sigma)
    (hlambda : lambda ∈ Set.Ioc (-Real.pi) Real.pi)
    (hphi : phi ∈ Set.Ioo (-(Real.pi / 2)) (Real.pi / 2))
    (hforward : p.forwardSphere lambda phi = .ok c) :
    p.inverseSphere c.first c.second = .ok ⟨lambda, phi⟩ := by
  have hdelta : Real.pi / 2 + sigma * phi ∈ Set.Ioo 0 Real.pi := by
    cases hpole <;> constructor <;> linarith [hphi.1, hphi.2]
  have hchord := Sight.chord_pos hdelta
  have hsigma := hpole.mul_self
  rw [forwardSphere_polar hpole] at hforward
  split_ifs at hforward with hantipode
  rw [← Except.ok.inj hforward]
  have hhypot : Exact.hypot (chord (Real.pi / 2 + sigma * phi) * Real.sin lambda)
      (sigma * (chord (Real.pi / 2 + sigma * phi) * Real.cos lambda)) =
        chord (Real.pi / 2 + sigma * phi) := by
    apply Exact.hypot_of_sq hchord.le
    linear_combination chord (Real.pi / 2 + sigma * phi) ^ 2 *
      (Real.cos lambda ^ 2 * hsigma + Real.sin_sq_add_cos_sq lambda)
  have hlatitude : sigma * (Real.pi / 2 + sigma * phi - Real.pi / 2) = phi := by
    linear_combination phi * hsigma
  rw [inverseSphere_polar hpole (hhypot.trans_le (Sight.chord_le_two _)), ← mul_assoc, hsigma,
    one_mul, Exact.atan2_mul_sin_mul_cos hchord hlambda, Sight.arc_chord hdelta hhypot, hlatitude]

lemma inverse_then_forward_polar {sigma : ℝ} (hpole : p.HasPole sigma)
    (hle : Exact.hypot x y ≤ 2) (hinverse : p.inverseSphere x y = .ok c) {d : Coordinate ℝ}
    (hforward : p.forwardSphere c.first c.second = .ok d) : d = ⟨x, y⟩ := by
  have hsigma := hpole.mul_self
  rw [inverseSphere_polar hpole hle] at hinverse
  rw [← Except.ok.inj hinverse, forwardSphere_polar hpole] at hforward
  split_ifs at hforward with hantipode
  have hdelta : Real.pi / 2 + sigma * (sigma * (Sight.arc x y - Real.pi / 2)) =
      Sight.arc x y := by
    linear_combination (Sight.arc x y - Real.pi / 2) * hsigma
  have hhypot : Exact.hypot (sigma * y) x = Exact.hypot x y := by
    apply Exact.hypot_of_sq (Exact.hypot_nonneg x y)
    rw [Exact.hypot_sq]
    linear_combination y ^ 2 * hsigma
  have hsin := Exact.mul_sin_atan2 x (sigma * y)
  have hcos := Exact.mul_cos_atan2 x (sigma * y)
  rw [hhypot] at hsin hcos
  rw [← Except.ok.inj hforward, hdelta, Sight.chord_arc hle, hsin, hcos, ← mul_assoc, hsigma,
    one_mul]

/-! ## All aspects -/

/-- **The mappings of the sphere undo each other.**  Forth and back restores every longitude and
latitude whose image lies outside the tolerance of the centre, and the inverse mapping does have a
value there; back and forth restores every point of the disc outside that tolerance. -/
theorem sphere_round_trip {latitude : ℝ} {e : Ellipsoid ℝ} (he : e.eccentricitySq = 0)
    (hp : centredAt latitude e = .ok p)
    (hoblique : p.aspect = .oblique → |latitude| < Real.pi / 2) :
    (∀ lambda ∈ Set.Ioc (-Real.pi) Real.pi, ∀ phi ∈ Set.Ioo (-(Real.pi / 2)) (Real.pi / 2),
      ∀ c, p.forwardSphere lambda phi = .ok c → tolerance < Exact.hypot c.first c.second →
        p.inverseSphere c.first c.second = .ok ⟨lambda, phi⟩) ∧
    (∀ x y, tolerance < Exact.hypot x y → Exact.hypot x y ≤ 2 →
      ∀ c, p.inverseSphere x y = .ok c → ∀ d, p.forwardSphere c.first c.second = .ok d →
        d = ⟨x, y⟩) := by
  have hframe := exists_frame_of_sphere he hp
  constructor
  · intro lambda hlambda phi hphi c hforward hfar
    rcases p.hasPole_or with ⟨sigma, hpole⟩ | hdisc
    · exact forward_then_inverse_polar hpole hlambda hphi hforward
    · obtain ⟨F, hF, hcos⟩ := hframe hdisc
      exact forward_then_inverse_disc hF (hcos hoblique) hlambda hphi hforward hfar
  · intro x y hfar hle c hinverse d hforward
    rcases p.hasPole_or with ⟨sigma, hpole⟩ | hdisc
    · exact inverse_then_forward_polar hpole hle hinverse hforward
    · obtain ⟨F, hF, hcos⟩ := hframe hdisc
      exact inverse_then_forward_disc hF (hcos hoblique) hfar hle hinverse hforward

/-- Centred one radian north, a point a quarter turn east on the equator goes there and back. -/
theorem sphere_round_trip_quarter_turn :
    centredAt 1 (⟨1, 0⟩ : Ellipsoid ℝ) = .ok (ofSphere .oblique 1) ∧
      (ofSphere .oblique (1 : ℝ)).forwardSphere (Real.pi / 2) 0 = .ok ⟨Real.sqrt 2, 0⟩ ∧
      (ofSphere .oblique (1 : ℝ)).inverseSphere (Real.sqrt 2) 0 = .ok ⟨Real.pi / 2, 0⟩ ∧
      ∀ d, (ofSphere .oblique (1 : ℝ)).forwardSphere (Real.pi / 2) 0 = .ok d →
        d = ⟨Real.sqrt 2, 0⟩ := by
  have hpi := Real.pi_gt_three
  have he : (⟨1, 0⟩ : Ellipsoid ℝ).eccentricitySq = 0 := by simp [Ellipsoid.eccentricitySq]
  have htolerance : (tolerance : ℝ) < 1 / 10 := by rw [tolerance_eq]; norm_num
  have hlatitude : Aspect.ofLatitude (1 : ℝ) = .ok .oblique := by
    apply Aspect.ofLatitude_oblique <;> rw [abs_one] <;> linarith
  have hp : centredAt 1 (⟨1, 0⟩ : Ellipsoid ℝ) = .ok (ofSphere .oblique 1) :=
    centredAt_eq_ok.mpr ⟨_, hlatitude, by rw [if_pos he]⟩
  have hoblique : (ofSphere .oblique (1 : ℝ)).aspect = .oblique → |(1 : ℝ)| < Real.pi / 2 := by
    intro
    rw [abs_one]
    linarith
  have hforward :
      (ofSphere .oblique (1 : ℝ)).forwardSphere (Real.pi / 2) 0 = .ok ⟨Real.sqrt 2, 0⟩ := by
    have hpositive : ¬(1 : ℝ) ≤ tolerance := by linarith
    simp [forwardSphere, ofSphere, scaledPoint, hpositive]
  have hsqrt : (1 : ℝ) < Real.sqrt 2 := Real.lt_sqrt_of_sq_lt (by norm_num)
  have hhypot : Exact.hypot (Real.sqrt 2) 0 = Real.sqrt 2 :=
    Exact.hypot_of_sq (by linarith) (by ring)
  have hfar : tolerance < Exact.hypot (Real.sqrt 2) 0 := by
    rw [hhypot]
    linarith
  have hle : Exact.hypot (Real.sqrt 2) 0 ≤ 2 := by
    rw [hhypot]
    exact Real.sqrt_le_iff.mpr ⟨by norm_num, by norm_num⟩
  obtain ⟨hback, hforth⟩ := sphere_round_trip he hp hoblique
  have hinverse : (ofSphere .oblique (1 : ℝ)).inverseSphere (Real.sqrt 2) 0 =
      .ok ⟨Real.pi / 2, 0⟩ :=
    hback (Real.pi / 2) ⟨by linarith, by linarith⟩ 0 ⟨by linarith, by linarith⟩ _ hforward hfar
  refine ⟨hp, hforward, hinverse, ?_⟩
  intro d hd
  exact hforth _ _ hfar hle _ hinverse d hd

end Projection

end EqualArea
