import EqualArea.Proofs.Ellipsoid.Mapping

/-!
# There and back on the ellipsoid

Over the real numbers the two mappings of an ellipsoid undo each other up to the conversion
between geographic and authalic latitude: the way through the plane itself loses nothing.

* `ellipsoid_forward_then_inverse_disc`, `ellipsoid_inverse_then_forward_disc` — the two
  directions under an equatorial or oblique aspect.
* `ellipsoid_forward_then_inverse_polar`, `ellipsoid_inverse_then_forward_polar` — the same under
  a polar aspect.
* `ellipsoid_round_trip` — both directions for every projection of an ellipsoid that can be built.
-/

namespace EqualArea

namespace Projection

open Sight (ofImage)

variable {p : Projection ℝ} {e : Ellipsoid ℝ} {s : Spheroid ℝ} {lambda phi x y : ℝ}
  {b : Bearing ℝ} {c d : Coordinate ℝ}

/-! ## Equatorial and oblique aspects -/

lemma ellipsoid_forward_then_inverse_disc {F : Frame} (he : e.Flattened)
    (hs : p.spheroid? = some s) (hof : s.Of e) (hfitted : s.Fitted) (hF : p.HasFrame F)
    (hlambda : lambda ∈ Set.Ioc (-Real.pi) Real.pi)
    (hphi : phi ∈ Set.Ioo (-(Real.pi / 2)) (Real.pi / 2))
    (hforward : p.forwardEllipsoid lambda phi = .ok c)
    (hfar : tolerance ≤ Exact.hypot (c.first / s.stretch) (c.second * s.stretch)) :
    p.inverseEllipsoid c.first c.second =
      .ok ⟨lambda, s.geographicLatitude (s.authalicLatitude phi)⟩ := by
  set xi := s.authalicLatitude phi with hxi
  have hmem : xi ∈ Set.Ioo (-(Real.pi / 2)) (Real.pi / 2) := by
    rw [hxi, hof.authalicLatitude_eq]
    exact he.authalic_mem_Ioo hphi
  have hcos : 0 < Real.cos xi := Real.cos_pos_of_mem_Ioo hmem
  rw [forwardEllipsoid_of_frame hs hfitted hF] at hforward
  split_ifs at hforward with hup
  have hup' : -1 < (F.sight lambda xi).up := by linarith [tolerance_pos]
  have hc : s.stretched (F.sight lambda xi).image = c := Except.ok.inj hforward
  have himage : s.unstretched c.first c.second = (F.sight lambda xi).image := by
    rw [← hc, hfitted.unstretched_stretched]
  rw [hfitted.hypot_eq] at hfar
  have hle : s.reach c.first c.second ≤ 2 := by
    rw [Spheroid.reach, himage]
    exact ((F.sight lambda xi).hypot_image_lt hup').le
  -- `ofImage` takes a proof about its point, so the point is generalised before it is replaced.
  have hsight : ofImage _ _ hle = F.sight lambda xi := by
    have hofImage : ∀ d : Coordinate ℝ, d = (F.sight lambda xi).image →
        ∀ hd : Exact.hypot d.first d.second ≤ 2, ofImage d.first d.second hd = F.sight lambda xi := by
      rintro _ rfl _
      exact (F.sight lambda xi).ofImage_image hup'
    exact hofImage _ himage hle
  have hpos : 0 < s.authalicRadius * s.reach c.first c.second * Real.cos xi :=
    mul_pos (lt_of_lt_of_le tolerance_pos hfar) hcos
  have hbearing : p.bearing s c.first c.second = .ok (some _) :=
    (bearing_eq_bearingOfDisc hF s _ _).trans (bearingOfDisc_of_frame hfitted hF hfar hle)
  rw [hsight] at hbearing
  have hsin : F.sinLatitude (F.sight lambda xi) ∈ Set.Icc (-1 : ℝ) 1 := F.sinLatitude_mem _
  rw [inverseEllipsoid_of_bearing hs hbearing hsin, F.sinLatitude_sight, F.meridional_sight,
    Real.arcsin_sin hmem.1.le hmem.2.le]
  refine congrArg Except.ok (Coordinate.ext ?_ rfl)
  change Exact.atan2 (_ * (Real.cos xi * Real.sin lambda)) (_ * (Real.cos xi * Real.cos lambda)) = _
  rw [← mul_assoc, ← mul_assoc, Exact.atan2_mul_sin_mul_cos hpos hlambda]

lemma ellipsoid_inverse_then_forward_disc {F : Frame} (hs : p.spheroid? = some s)
    (hfitted : s.Fitted) (hF : p.HasFrame F) (hb : p.bearing s x y = .ok (some b))
    (hinverse : p.inverseEllipsoid x y = .ok c)
    (hauthalic : s.authalicLatitude c.second = Real.arcsin (Arith.clamp (-1) 1 b.sinAuthalic))
    (hforward : p.forwardEllipsoid c.first c.second = .ok d) : d = ⟨x, y⟩ := by
  rw [bearing_eq_bearingOfDisc hF] at hb
  obtain ⟨hfar, hle⟩ := bounds_of_bearingOfDisc hfitted hb
  have hpos : 0 < s.authalicRadius * s.reach x y := lt_of_lt_of_le tolerance_pos hfar
  have hformula := bearingOfDisc_of_frame hfitted hF hfar hle
  rw [hb] at hformula
  have hbearing := Option.some.inj (Except.ok.inj hformula)
  have hmem : b.sinAuthalic ∈ Set.Icc (-1 : ℝ) 1 := by
    rw [hbearing]
    exact F.sinLatitude_mem _
  rw [← bearing_eq_bearingOfDisc hF] at hb
  rw [inverseEllipsoid_of_bearing hs hb hmem] at hinverse
  -- What comes back is the position of a sight, and the image of that sight is the point.
  have hlongitude : c.first = (F.position (ofImage _ _ hle)).first := by
    rw [← Except.ok.inj hinverse, hbearing]
    exact Exact.atan2_mul hpos _ _
  have hlatitude : s.authalicLatitude c.second = (F.position (ofImage _ _ hle)).second := by
    rw [hauthalic, Exact.clamp_of_mem hmem, hbearing]
    rfl
  rw [forwardEllipsoid_of_frame hs hfitted hF, hlongitude, hlatitude, F.sight_position]
    at hforward
  split_ifs at hforward with hup
  have hup' : -1 < (ofImage _ _ hle).up := by linarith [tolerance_pos]
  rw [← Except.ok.inj hforward, Sight.image_ofImage (Sight.hypot_lt_of_up hle hup')]
  exact hfitted.stretched_unstretched x y

/-! ## Polar aspects -/

lemma ellipsoid_forward_then_inverse_polar {sigma : ℝ} (he : e.Flattened)
    (hs : p.spheroid? = some s) (hof : s.Of e) (hpole : p.HasPole sigma)
    (hlambda : lambda ∈ Set.Ioc (-Real.pi) Real.pi)
    (hphi : phi ∈ Set.Ioo (-(Real.pi / 2)) (Real.pi / 2))
    (hforward : p.forwardEllipsoid lambda phi = .ok c) (hne : c ≠ Coordinate.origin) :
    p.inverseEllipsoid c.first c.second =
      .ok ⟨lambda, s.geographicLatitude (s.authalicLatitude phi)⟩ := by
  set xi := s.authalicLatitude phi with hxi
  have hmem : xi ∈ Set.Ioo (-(Real.pi / 2)) (Real.pi / 2) := by
    rw [hxi, hof.authalicLatitude_eq]
    exact he.authalic_mem_Ioo hphi
  have hq : s.poleIntegral ≠ 0 := hof.poleIntegral_eq ▸ he.poleIntegral_pos.ne'
  have hsigma := hpole.mul_self
  rw [forwardEllipsoid_polar hs hpole, ← hxi] at hforward
  set squared := s.poleIntegral * (1 + sigma * Real.sin xi) with hsquared
  split_ifs at hforward with hantipode hcentre
  · exact absurd (Except.ok.inj hforward).symm hne
  have hpos : 0 < squared := lt_of_lt_of_le poleLimit_pos (not_lt.mp hcentre)
  have hroot : 0 < Real.sqrt squared := Real.sqrt_pos.mpr hpos
  have hsq : Real.sqrt squared ^ 2 = squared := Real.sq_sqrt hpos.le
  -- The squared distance is the area between the point and the pole, and the sine of the latitude
  -- is read off it.
  have hdistance : Real.sqrt squared * Real.sin lambda * (Real.sqrt squared * Real.sin lambda) +
      sigma * (Real.sqrt squared * Real.cos lambda) *
        (sigma * (Real.sqrt squared * Real.cos lambda)) = squared := by
    linear_combination hsq + Real.sqrt squared ^ 2 *
      (Real.cos lambda ^ 2 * hsigma + Real.sin_sq_add_cos_sq lambda)
  have hsine : sigma * (squared / s.poleIntegral - 1) = Real.sin xi := by
    rw [hsquared]
    field_simp
    linear_combination Real.sin xi * hsigma
  rw [← Except.ok.inj hforward]
  have hbearing : p.bearing s (Real.sqrt squared * Real.sin lambda)
      (sigma * (Real.sqrt squared * Real.cos lambda)) = .ok (some
        ⟨Real.sin xi, Real.sqrt squared * Real.sin lambda, Real.sqrt squared * Real.cos lambda⟩) := by
    rw [bearing_polar hpole, hdistance, if_neg hpos.ne', hsine, ← mul_assoc sigma, hsigma, one_mul]
  rw [inverseEllipsoid_of_bearing hs hbearing ⟨Real.neg_one_le_sin xi, Real.sin_le_one xi⟩,
    Exact.atan2_mul_sin_mul_cos hroot hlambda, Real.arcsin_sin hmem.1.le hmem.2.le]

lemma ellipsoid_inverse_then_forward_polar {sigma : ℝ} (he : e.Flattened)
    (hs : p.spheroid? = some s) (hof : s.Of e) (hpole : p.HasPole sigma)
    (hlow : poleLimit ≤ x ^ 2 + y ^ 2) (hhigh : x ^ 2 + y ^ 2 ≤ 2 * s.poleIntegral)
    (hb : p.bearing s x y = .ok (some b)) (hinverse : p.inverseEllipsoid x y = .ok c)
    (hauthalic : s.authalicLatitude c.second = Real.arcsin (Arith.clamp (-1) 1 b.sinAuthalic))
    (hforward : p.forwardEllipsoid c.first c.second = .ok d) : d = ⟨x, y⟩ := by
  have hq : 0 < s.poleIntegral := hof.poleIntegral_eq ▸ he.poleIntegral_pos
  have hsigma := hpole.mul_self
  have hformula := bearing_polar hpole s x y
  rw [hb] at hformula
  split_ifs at hformula with hcentre
  · cases hformula
  have hbearing := Option.some.inj (Except.ok.inj hformula)
  -- Up to twice the integral the quotient is a sine, so the clamp does nothing.
  have hmem : b.sinAuthalic ∈ Set.Icc (-1 : ℝ) 1 := by
    have hlow' : 0 ≤ (x * x + y * y) / s.poleIntegral :=
      div_nonneg (add_nonneg (mul_self_nonneg x) (mul_self_nonneg y)) hq.le
    have hhigh' : (x * x + y * y) / s.poleIntegral ≤ 2 := by
      rw [div_le_iff₀ hq]
      linarith
    rw [hbearing]
    cases hpole <;> constructor <;> linarith
  rw [inverseEllipsoid_of_bearing hs hb hmem] at hinverse
  have hsine : Real.sin (s.authalicLatitude c.second) =
      sigma * ((x * x + y * y) / s.poleIntegral - 1) := by
    rw [hauthalic, Exact.clamp_of_mem hmem, Real.sin_arcsin hmem.1 hmem.2, hbearing]
  have hsquared : s.poleIntegral * (1 + sigma * Real.sin (s.authalicLatitude c.second)) =
      x ^ 2 + y ^ 2 := by
    rw [hsine]
    field_simp
    linear_combination (x ^ 2 + y ^ 2 - s.poleIntegral) * hsigma
  have hlongitude : c.first = Exact.atan2 x (sigma * y) := by
    rw [← Except.ok.inj hinverse, hbearing]
  have hhypot : Real.sqrt (x ^ 2 + y ^ 2) = Exact.hypot (sigma * y) x := by
    rw [Exact.hypot]
    congr 1
    linear_combination -y ^ 2 * hsigma
  rw [forwardEllipsoid_polar hs hpole, hsquared, if_neg (not_lt.mpr hlow), hhypot, hlongitude,
    Exact.mul_sin_atan2, Exact.mul_cos_atan2, ← mul_assoc, hsigma, one_mul] at hforward
  split_ifs at hforward with hantipode
  exact (Except.ok.inj hforward).symm

/-! ## All aspects -/

/-- **The mappings of the ellipsoid undo each other** up to the conversion of latitudes.  Forth and
back restores every longitude, and the latitude as far as the two conversions restore it; back and
forth restores every point of the plane whose latitude is converted back to the authalic latitude
it came from. -/
theorem ellipsoid_round_trip {latitude : ℝ} (he : e.Flattened)
    (hp : centredAt latitude e = .ok p) :
    ∃ s, p.spheroid? = some s ∧ s.Of e ∧
      (∀ lambda ∈ Set.Ioc (-Real.pi) Real.pi, ∀ phi ∈ Set.Ioo (-(Real.pi / 2)) (Real.pi / 2),
        ∀ c, p.forwardEllipsoid lambda phi = .ok c →
          (p.aspect = .northPolar ∨ p.aspect = .southPolar → c ≠ Coordinate.origin) →
          (p.aspect = .equatorial ∨ p.aspect = .oblique →
            tolerance ≤ Exact.hypot (c.first / s.stretch) (c.second * s.stretch)) →
          p.inverseEllipsoid c.first c.second =
            .ok ⟨lambda, s.geographicLatitude (s.authalicLatitude phi)⟩) ∧
      (∀ x y b c, p.bearing s x y = .ok (some b) → p.inverseEllipsoid x y = .ok c →
        (p.aspect = .northPolar ∨ p.aspect = .southPolar →
          poleLimit ≤ x ^ 2 + y ^ 2 ∧ x ^ 2 + y ^ 2 ≤ 2 * s.poleIntegral) →
        s.authalicLatitude c.second = Real.arcsin (Arith.clamp (-1) 1 b.sinAuthalic) →
        ∀ d, p.forwardEllipsoid c.first c.second = .ok d → d = ⟨x, y⟩) := by
  obtain ⟨s, hs, hof, hframe⟩ := exists_spheroid he hp
  refine ⟨s, hs, hof, ?_, ?_⟩
  · intro lambda hlambda phi hphi c hforward hne hfar
    rcases p.hasPole_or with ⟨sigma, hpole⟩ | hdisc
    · exact ellipsoid_forward_then_inverse_polar he hs hof hpole hlambda hphi hforward
        (hne hpole.aspect_eq)
    · obtain ⟨hfitted, F, hF⟩ := hframe hdisc
      exact ellipsoid_forward_then_inverse_disc he hs hof hfitted hF hlambda hphi hforward
        (hfar hdisc)
  · intro x y b c hb hinverse hrange hauthalic d hforward
    rcases p.hasPole_or with ⟨sigma, hpole⟩ | hdisc
    · obtain ⟨hlow, hhigh⟩ := hrange hpole.aspect_eq
      exact ellipsoid_inverse_then_forward_polar he hs hof hpole hlow hhigh hb hinverse hauthalic
        hforward
    · obtain ⟨hfitted, F, hF⟩ := hframe hdisc
      exact ellipsoid_inverse_then_forward_disc hs hfitted hF hb hinverse hauthalic hforward

/-- On an ellipsoid with one axis half as long as the other, a point a quarter turn east of the
centre goes there and back. -/
theorem ellipsoid_round_trip_quarter_turn :
    centredAt 0 (⟨1, 1 / 2⟩ : Ellipsoid ℝ) = .ok (ofEllipsoid .equatorial 0 ⟨1, 1 / 2⟩) ∧
      (ofEllipsoid .equatorial 0 (⟨1, 1 / 2⟩ : Ellipsoid ℝ)).forwardEllipsoid (Real.pi / 2) 0 =
        .ok ⟨Real.sqrt 2, 0⟩ ∧
      (ofEllipsoid .equatorial 0 (⟨1, 1 / 2⟩ : Ellipsoid ℝ)).inverseEllipsoid (Real.sqrt 2) 0 =
        .ok ⟨Real.pi / 2, 0⟩ ∧
      ∀ d, (ofEllipsoid .equatorial 0 (⟨1, 1 / 2⟩ : Ellipsoid ℝ)).forwardEllipsoid
        (Real.pi / 2) 0 = .ok d → d = ⟨Real.sqrt 2, 0⟩ := by
  have hpi := Real.pi_gt_three
  have htolerance : (tolerance : ℝ) < 1 := by rw [tolerance_eq]; norm_num
  set e : Ellipsoid ℝ := ⟨1, 1 / 2⟩
  have he : e.Flattened := Ellipsoid.flattened_half
  have hp : centredAt 0 e = .ok (ofEllipsoid .equatorial 0 e) := centredAt_zero he
  obtain ⟨s, hs, hof, hforth, hback⟩ := ellipsoid_round_trip he hp
  have hfitted : s.Fitted := (ofEllipsoid_equatorial_fitted he 0 hs).2
  have hF : (ofEllipsoid .equatorial 0 e).HasFrame Frame.equator := .equatorial rfl
  have hauthalic : s.authalicLatitude 0 = 0 := by rw [hof.authalicLatitude_eq, e.authalic_zero]
  have hgeographic : s.geographicLatitude 0 = 0 := s.ellipsoid.geographicLatitude_zero _ _
  have heast : s.authalicRadius * s.stretch = 1 := by
    rw [← hfitted.eastFactor_eq]
    obtain rfl := Option.some.inj hs
    rfl
  obtain ⟨hup, himage⟩ := Frame.equator.sight_quarter_turn
  have hforward : (ofEllipsoid .equatorial 0 e).forwardEllipsoid (Real.pi / 2) 0 =
      .ok ⟨Real.sqrt 2, 0⟩ := by
    rw [forwardEllipsoid_of_frame hs hfitted hF, hauthalic, hup, himage, Spheroid.stretched, heast,
      if_neg (by linarith), one_mul, mul_zero]
  have hreach : s.reach (Real.sqrt 2) 0 = Real.sqrt 2 := by
    have hunstretched := hfitted.unstretched_stretched ⟨Real.sqrt 2, 0⟩
    simp only [Spheroid.stretched, heast, one_mul, mul_zero] at hunstretched
    rw [Spheroid.reach, hunstretched]
    exact Exact.hypot_of_sq (Real.sqrt_nonneg 2) (by ring)
  have hfar : tolerance ≤ s.authalicRadius * s.reach (Real.sqrt 2) 0 := by
    rw [hreach]
    exact htolerance.le.trans (one_le_radius_mul_sqrt_two he hof hfitted)
  have hle : s.reach (Real.sqrt 2) 0 ≤ 2 := by
    rw [hreach]
    exact Real.sqrt_le_iff.mpr ⟨by norm_num, by norm_num⟩
  have hinverse := hforth (Real.pi / 2) ⟨by linarith, by linarith⟩ 0 ⟨by linarith, by linarith⟩ _
    hforward (fun h => by simp [ofEllipsoid] at h) (fun _ => by rwa [hfitted.hypot_eq])
  rw [hauthalic, hgeographic] at hinverse
  refine ⟨hp, hforward, hinverse, ?_⟩
  intro d hd
  have hbearing := (bearing_eq_bearingOfDisc hF s _ _).trans
    (bearingOfDisc_of_frame hfitted hF hfar hle)
  have hsine : Frame.equator.sinLatitude (ofImage _ _ hle) = 0 := by
    simp [Frame.sinLatitude, Frame.equator, ofImage, Spheroid.unstretched]
  refine hback _ _ _ _ hbearing hinverse (fun h => by simp [ofEllipsoid] at h) ?_ d hd
  change s.authalicLatitude 0 = Real.arcsin (Arith.clamp (-1) 1 (Frame.equator.sinLatitude _))
  rw [hauthalic, hsine, Exact.clamp_of_mem ⟨by norm_num, by norm_num⟩, Real.arcsin_zero]

end Projection

end EqualArea
