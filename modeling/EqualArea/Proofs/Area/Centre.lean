import EqualArea.Proofs.Area.Operator
import EqualArea.Proofs.Operator.Apply

/-!
# The centre of a map is true to scale

* `Projection.HasDerivative`, `Projection.HasAxes` — what it means for a mapping to be
  differentiable at a point, and to take east to east and north to north there.
* `Frame.CentredAt` — a frame whose centre lies at a latitude; by
  `Frame.CentredAt.hasAxes_of_sight` a mapping that goes through its sights is diagonal at
  the centre.
* `Projection.centre_of_sphere`, `Projection.centre_of_ellipsoid` — the frame and the constants of
  a projection belong to its centre.
* `Projection.forward_centre` — the mapping of a projection at its centre.
* `Operator.true_to_scale` — the map of an operator at its centre.

**Design.**  The stretch of a projection is defined by the radii of two parallels, so that the
derivative to the east is right needs nothing but its definition.  That the derivative to the
north is right too is where the slope of the authalic latitude enters.
-/

namespace EqualArea

lemma HasPartials.comp_axes {f : ℝ × ℝ → ℝ} {h k : ℝ → ℝ} {a b c d lambda phi : ℝ}
    (hf : HasPartials f a b (h lambda, k phi)) (hh : HasDerivAt h c lambda)
    (hk : HasDerivAt k d phi) :
    HasPartials (fun w => f (h w.1, k w.2)) (a * c) (b * d) (lambda, phi) := by
  have hfirst : HasFDerivAt (fun w : ℝ × ℝ => h w.1) _ (lambda, phi) :=
    HasPartials.of_fst (v := (lambda, phi)) hh
  have hsecond : HasFDerivAt (fun w : ℝ × ℝ => k w.2) _ (lambda, phi) :=
    HasPartials.of_snd (v := (lambda, phi)) hk
  have hchange := hfirst.prodMk hsecond
  have houter : HasFDerivAt f _ ((fun w : ℝ × ℝ => (h w.1, k w.2)) (lambda, phi)) := hf
  refine (houter.comp (lambda, phi) hchange).congr_fderiv ?_
  ext <;> simp

namespace Ellipsoid

variable {e : Ellipsoid ℝ}

lemma primeVerticalRadius_eq (hne : e.flattening ≠ 0) (phi : ℝ) :
    e.primeVerticalRadius phi = e.semimajor * (1 / Real.sqrt (e.curvatureTerm phi)) := by
  have hsphere : e.isSphere = false := by simp [isSphere, hne]
  rw [mul_one_div, primeVerticalRadius, hsphere]
  rfl

lemma meridianRadius_eq (he : e.Flattened) (hne : e.flattening ≠ 0) (phi : ℝ) :
    e.meridianRadius phi = e.semimajor *
      ((1 - e.eccentricitySq) / (e.curvatureTerm phi * Real.sqrt (e.curvatureTerm phi))) := by
  have hsphere : e.isSphere = false := by simp [isSphere, hne]
  have hpower : e.curvatureTerm phi ^ (1.5 : ℝ) =
      e.curvatureTerm phi * Real.sqrt (e.curvatureTerm phi) := by
    have hsplit := Real.rpow_add (he.curvatureTerm_pos phi) 1 (1 / 2)
    rw [Real.rpow_one, ← Real.sqrt_eq_rpow] at hsplit
    rw [← hsplit]
    norm_num
  rw [← mul_div_assoc, ← hpower, meridianRadius, hsphere]
  rfl

end Ellipsoid

/-! ## Derivatives of mappings -/

namespace Projection

/-- Around a point a mapping has values, and they are those of a map with the given derivative. -/
def HasDerivative (f : ℝ → ℝ → Except Refusal (Coordinate ℝ)) (J : ℝ × ℝ →L[ℝ] ℝ × ℝ)
    (v : ℝ × ℝ) : Prop :=
  ∃ g : ℝ × ℝ → ℝ × ℝ, HasFDerivAt g J v ∧
    ∀ᶠ w in nhds v, f w.1 w.2 = .ok ⟨(g w).1, (g w).2⟩

/-- The derivative of a mapping is diagonal: it takes east to east and north to north. -/
def HasAxes (f : ℝ → ℝ → Except Refusal (Coordinate ℝ)) (east north : ℝ) (v : ℝ × ℝ) : Prop :=
  ∃ J, HasDerivative f J v ∧ ∀ w, J w = (east * w.1, north * w.2)

end Projection

/-! ## Frames at their centre -/

namespace Frame

variable {F : Frame} {xi : ℝ}

/-- The centre lies at a latitude. -/
structure CentredAt (F : Frame) (xi : ℝ) : Prop where
  sin_eq : F.sin = Real.sin xi
  cos_eq : F.cos = Real.cos xi

namespace CentredAt

/-- From the centre the centre is seen straight up. -/
lemma sight (hF : F.CentredAt xi) :
    (F.sight 0 xi).east = 0 ∧ (F.sight 0 xi).north = 0 ∧ (F.sight 0 xi).up = 1 := by
  have hunit := Real.sin_sq_add_cos_sq xi
  simp only [Frame.sight, hF.sin_eq, hF.cos_eq, Real.sin_zero, Real.cos_zero, mul_zero, mul_one]
  refine ⟨trivial, by ring, ?_⟩
  linear_combination hunit

lemma scale_eq_one (hF : F.CentredAt xi) : (F.sight 0 xi).scale = 1 := by
  rw [Sight.scale, hF.sight.2.2, one_add_one_eq_two, div_self two_ne_zero, Real.sqrt_one]

lemma image (hF : F.CentredAt xi) : (F.sight 0 xi).image = ⟨0, 0⟩ := by
  rw [Sight.image, hF.sight.1, hF.sight.2.1, mul_zero]

/-- The factor of the image is stationary at the centre, so the image changes like the sight. -/
lemma hasPartials_scale (hF : F.CentredAt xi) :
    HasPartials (fun v => (F.sight v.1 v.2).scale) 0 0 (0, xi) := by
  have hup : -1 < (F.sight 0 xi).up := by
    rw [hF.sight.2.2]
    norm_num
  refine (F.hasPartials_scale 0 xi hup).congr_partials ?_ ?_
  · rw [Real.sin_zero]
    ring
  · rw [hF.sin_eq, hF.cos_eq, Real.cos_zero]
    ring

lemma hasPartials_first (hF : F.CentredAt xi) :
    HasPartials (fun v => (F.sight v.1 v.2).image.first) (Real.cos xi) 0 (0, xi) := by
  refine (hF.hasPartials_scale.mul (F.hasPartials_east 0 xi)).congr_partials ?_ ?_
  · rw [hF.scale_eq_one, Real.cos_zero]
    ring
  · rw [hF.scale_eq_one, Real.sin_zero]
    ring

lemma hasPartials_second (hF : F.CentredAt xi) :
    HasPartials (fun v => (F.sight v.1 v.2).image.second) 0 1 (0, xi) := by
  have hunit := Real.sin_sq_add_cos_sq xi
  refine (hF.hasPartials_scale.mul (F.hasPartials_north 0 xi)).congr_partials ?_ ?_
  · rw [hF.scale_eq_one, Real.sin_zero]
    ring
  · rw [hF.scale_eq_one, hF.sin_eq, hF.cos_eq, Real.cos_zero]
    linear_combination hunit

/-- **A mapping through the sights of a frame is diagonal at the centre.**  Its latitude may be
converted before, and the axes of its map be stretched after. -/
theorem hasAxes_of_sight {f : ℝ → ℝ → Except Refusal (Coordinate ℝ)} {conversion : ℝ → ℝ}
    {east north slope phi : ℝ} (hF : F.CentredAt (conversion phi))
    (hconversion : HasDerivAt conversion slope phi)
    (hf : ∀ lambda phi, tolerance < 1 + (F.sight lambda (conversion phi)).up →
      f lambda phi = .ok ⟨east * (F.sight lambda (conversion phi)).image.first,
        north * (F.sight lambda (conversion phi)).image.second⟩) :
    f 0 phi = .ok ⟨0, 0⟩ ∧
      Projection.HasAxes f (east * Real.cos (conversion phi)) (north * slope) (0, phi) := by
  have htolerance := tolerance_lt_one
  have hcentre : tolerance < 1 + (F.sight 0 (conversion phi)).up := by
    rw [hF.sight.2.2]
    linarith
  have hfirst := (HasPartials.const east (0, phi)).mul
    (hF.hasPartials_first.comp_axes (hasDerivAt_id 0) hconversion)
  have hsecond := (HasPartials.const north (0, phi)).mul
    (hF.hasPartials_second.comp_axes (hasDerivAt_id 0) hconversion)
  refine ⟨by rw [hf 0 phi hcentre, hF.image, mul_zero, mul_zero], _,
    ⟨fun v => (east * (F.sight v.1 (conversion v.2)).image.first,
      north * (F.sight v.1 (conversion v.2)).image.second),
      HasFDerivAt.prodMk hfirst hsecond, ?_⟩, fun w => ?_⟩
  -- The formula has to hold near the centre too, and it does since the height over the antipode is
  -- continuous.
  · have hup := HasFDerivAt.continuousAt
      ((F.hasPartials_up 0 (conversion phi)).comp_axes (hasDerivAt_id 0) hconversion)
    have hlt : tolerance - 1 < (F.sight 0 (conversion phi)).up := by linarith
    filter_upwards [hup.tendsto.eventually_const_lt hlt] with v hv
    have hv' : tolerance - 1 < (F.sight v.1 (conversion v.2)).up := hv
    exact hf v.1 v.2 (by linarith)
  · simp

end CentredAt

end Frame

namespace Projection

variable {p : Projection ℝ} {e : Ellipsoid ℝ} {latitude : ℝ}

/-! ## Projections at their centre -/

/-- The frame of a projection of a sphere is that of its centre. -/
lemma centre_of_sphere (he : e.eccentricitySq = 0) (hp : centredAt latitude e = .ok p)
    (hcentre : latitude = 0 ∨ p.aspect = .oblique) :
    ∃ F, p.HasFrame F ∧ F.CentredAt latitude := by
  obtain ⟨aspect, haspect, rfl⟩ := centredAt_eq_ok.mp hp
  rw [if_pos he] at hcentre ⊢
  rcases hcentre with rfl | h
  · obtain rfl := Except.ok.inj (haspect.symm.trans Aspect.ofLatitude_zero)
    exact ⟨Frame.equator, .equatorial rfl, Real.sin_zero.symm, Real.cos_zero.symm⟩
  · have hsin : (ofSphere aspect latitude).sinCentre = Real.sin latitude := if_pos h
    have hcos : (ofSphere aspect latitude).cosCentre = Real.cos latitude := if_pos h
    exact ⟨_, .oblique h (by rw [hsin, hcos, Real.sin_sq_add_cos_sq]), hsin, hcos⟩

/-- The frame of a projection of an ellipsoid is that of the authalic latitude of its centre, and
its stretch makes the parallel of the centre as long as it is on the ellipsoid. -/
lemma centre_of_ellipsoid (he : e.Flattened) (hp : centredAt latitude e = .ok p)
    (hcentre : latitude = 0 ∨ p.aspect = .oblique ∧ |latitude| < Real.pi / 2) :
    ∃ s F, p.spheroid? = some s ∧ s.Of e ∧ s.Fitted ∧ p.HasFrame F ∧
      F.CentredAt (e.authalic latitude) ∧
      s.stretch * (Real.sqrt (e.curvatureTerm latitude) * s.authalicRadius *
        Real.cos (e.authalic latitude)) = Real.cos latitude := by
  obtain ⟨aspect, haspect, rfl⟩ := centredAt_eq_ok.mp hp
  rw [if_neg he.pos.ne'] at hcentre ⊢
  have hterm : 1 - e.eccentricitySq * Real.sin latitude * Real.sin latitude =
      e.curvatureTerm latitude := by
    simp only [Ellipsoid.curvatureTerm, Arith.sq, Exact.sin_eq]
    ring
  rcases hcentre with rfl | ⟨h, hlatitude⟩
  · obtain rfl := Except.ok.inj (haspect.symm.trans Aspect.ofLatitude_zero)
    obtain ⟨hof, hfitted⟩ := ofEllipsoid_equatorial_fitted he 0 rfl
    refine ⟨_, Frame.equator, rfl, hof, hfitted, .equatorial rfl, ⟨?_, ?_⟩, ?_⟩
    · rw [e.authalic_zero, Real.sin_zero]
      rfl
    · rw [e.authalic_zero, Real.cos_zero]
      rfl
    · have hradius := hfitted.radius_pos.ne'
      rw [← hterm, e.authalic_zero, Real.sin_zero, Real.cos_zero, mul_zero, sub_zero,
        Real.sqrt_one, one_mul, mul_one]
      exact one_div_mul_cancel hradius
  -- Under an oblique aspect the stretch is the quotient of two radii of the parallel of the centre,
  -- that of the ellipsoid and that of the authalic sphere.
  · cases aspect <;> simp only [ofEllipsoid, reduceCtorEq] at h
    have hcos : 0 < Real.cos latitude := Real.cos_pos_of_mem_Ioo (abs_lt.mp hlatitude)
    obtain ⟨hof, hfitted⟩ := ofEllipsoid_oblique_fitted he hcos.ne' rfl
    have hauthalic : (Spheroid.polar e).authalicLatitude latitude = e.authalic latitude :=
      (Spheroid.polar_of e).authalicLatitude_eq latitude
    refine ⟨_, _, rfl, hof, hfitted, .oblique rfl (Real.sin_sq_add_cos_sq _), ⟨?_, ?_⟩, ?_⟩
    · exact congrArg Real.sin hauthalic
    · exact congrArg Real.cos hauthalic
    · have hroot := Real.sqrt_pos.mpr (he.curvatureTerm_pos latitude)
      have hcosAuthalic := he.cos_authalic_pos hcos
      have hradius := hfitted.radius_pos
      have hparallel : Real.sqrt (e.curvatureTerm latitude) * (Spheroid.polar e).radiusOfArea *
          Real.cos (e.authalic latitude) ≠ 0 :=
        (mul_pos (mul_pos hroot hradius) hcosAuthalic).ne'
      change Real.cos latitude /
        (Real.sqrt (1 - e.eccentricitySq * Real.sin latitude * Real.sin latitude) *
          (Spheroid.polar e).radiusOfArea *
          Real.cos ((Spheroid.polar e).authalicLatitude latitude)) * _ = _
      rw [hterm, hauthalic]
      exact div_mul_cancel₀ _ hparallel

/-- The slope of the authalic latitude at the centre, by the constants of a projection: the map is
true to scale to the north. -/
lemma northern_scale {s : Spheroid ℝ} {slope phi : ℝ} (he : e.Flattened) (hof : s.Of e)
    (hfitted : s.Fitted) (hcos : Real.cos phi ≠ 0)
    (hparallel : s.stretch * (Real.sqrt (e.curvatureTerm phi) * s.authalicRadius *
      Real.cos (e.authalic phi)) = Real.cos phi)
    (hslope : slope * Real.cos (e.authalic phi) * e.poleIntegral = 2 * e.density phi) :
    s.authalicRadius / s.stretch * slope =
      (1 - e.eccentricitySq) / (e.curvatureTerm phi * Real.sqrt (e.curvatureTerm phi)) := by
  have hterm := he.curvatureTerm_pos phi
  have hroot := Real.sqrt_pos.mpr hterm
  have hrootSq := Real.mul_self_sqrt hterm.le
  have hradius := hfitted.radius_pos
  have hradiusSq := hfitted.radius_sq
  have hstretch := hfitted.stretch_ne_zero
  rw [hof.poleIntegral_eq] at hradiusSq
  rw [Ellipsoid.density] at hslope
  set w := e.curvatureTerm phi
  set root := Real.sqrt w
  have hcosAuthalic : Real.cos (e.authalic phi) ≠ 0 := by
    intro hzero
    rw [hzero, mul_zero, mul_zero] at hparallel
    exact hcos hparallel.symm
  have hcleared : slope * Real.cos (e.authalic phi) * e.poleIntegral * w ^ 2 =
      2 * ((1 - e.eccentricitySq) * Real.cos phi) := by
    rw [hslope]
    field_simp
  rw [div_mul_eq_mul_div, div_eq_div_iff hstretch (mul_pos hterm hroot).ne']
  -- Multiplied out, the equation is a combination of those that define the radius, the stretch, the
  -- root and the slope.
  refine mul_left_cancel₀ (mul_ne_zero (mul_pos (mul_pos two_pos hradius) hroot).ne' hcosAuthalic) ?_
  linear_combination slope * w * root ^ 2 * Real.cos (e.authalic phi) * hradiusSq +
    e.poleIntegral * slope * Real.cos (e.authalic phi) * w * hrootSq + hcleared -
    2 * (1 - e.eccentricitySq) * hparallel

/-! ## The mapping of a projection -/

/-- **The mapping of a projection is true to scale at its centre.** -/
theorem forward_centre (hp : centredAt latitude e = .ok p) (hsemimajor : e.semimajor ≠ 0)
    (hshape : e.flattening = 0 ∨
      0 < e.flattening ∧ e.flattening < 1 ∧ 0.01 ≤ e.thirdFlattening)
    (hcentre : latitude = 0 ∨ p.aspect = .oblique ∧ |latitude| < Real.pi / 2) :
    p.forward 0 latitude = .ok ⟨0, 0⟩ ∧
      HasAxes p.forward (e.primeVerticalRadius latitude * Real.cos latitude / e.semimajor)
        (e.meridianRadius latitude / e.semimajor) (0, latitude) := by
  -- On a sphere latitudes are not converted and nothing is stretched.
  rcases hshape with hsphere | ⟨hpositive, hflat, hthird⟩
  · have hzero : e.eccentricitySq = 0 := by simp [Ellipsoid.eccentricitySq, hsphere]
    have hsphere' : e.isSphere = true := by simp [Ellipsoid.isSphere, hsphere]
    obtain ⟨F, hF, hat⟩ := centre_of_sphere hzero hp (hcentre.imp_right And.left)
    have hforward : p.forward = p.forwardSphere := by
      simp [forward, spheroid?_eq_none hzero hp]
    have hvalue : ∀ lambda phi, tolerance < 1 + (F.sight lambda phi).up →
        p.forward lambda phi = .ok ⟨1 * (F.sight lambda phi).image.first,
          1 * (F.sight lambda phi).image.second⟩ := by
      intro lambda phi hfar
      rw [hforward, forwardSphere_of_frame hF, if_neg (not_le.mpr hfar), one_mul, one_mul]
    have hscale := hat.hasAxes_of_sight (hasDerivAt_id latitude) hvalue
    simpa [Ellipsoid.primeVerticalRadius, Ellipsoid.meridianRadius, hsphere', hsemimajor]
      using hscale
  · have hne : e.flattening ≠ 0 := hpositive.ne'
    have he : e.Flattened :=
      ⟨mul_pos hpositive (by linarith), by unfold Ellipsoid.eccentricitySq; nlinarith⟩
    obtain ⟨s, F, hs, hof, hfitted, hF, hat, hparallel⟩ := centre_of_ellipsoid he hp hcentre
    have hcos : Real.cos latitude ≠ 0 := by
      rcases hcentre with rfl | ⟨-, hlatitude⟩
      · simp
      · exact (Real.cos_pos_of_mem_Ioo (abs_lt.mp hlatitude)).ne'
    obtain ⟨slope, hslope, hdensity⟩ := hasDerivAt_authalicLatitude he hof hflat hthird hcos
    have hforward : p.forward = p.forwardEllipsoid := by simp [forward, hs]
    have hvalue : ∀ lambda phi, tolerance < 1 + (F.sight lambda (s.authalicLatitude phi)).up →
        p.forward lambda phi =
          .ok ⟨s.authalicRadius * s.stretch * (F.sight lambda (s.authalicLatitude phi)).image.first,
            s.authalicRadius / s.stretch *
              (F.sight lambda (s.authalicLatitude phi)).image.second⟩ := by
      intro lambda phi hfar
      rw [hforward, forwardEllipsoid_of_frame hs hfitted hF, if_neg hfar.not_gt]
      rfl
    rw [← hof.authalicLatitude_eq] at hat
    have hscale := hat.hasAxes_of_sight hslope hvalue
    rw [hof.authalicLatitude_eq] at hscale hdensity
    rw [hof.poleIntegral_eq] at hdensity
    -- To the east the stretch was chosen for this scale, to the north the area leaves no other.
    have heast : s.authalicRadius * s.stretch * Real.cos (e.authalic latitude) =
        e.primeVerticalRadius latitude * Real.cos latitude / e.semimajor := by
      have hroot := (Real.sqrt_pos.mpr (he.curvatureTerm_pos latitude)).ne'
      rw [Ellipsoid.primeVerticalRadius_eq hne, ← hparallel]
      field_simp
    have hnorth : s.authalicRadius / s.stretch * slope = e.meridianRadius latitude / e.semimajor := by
      rw [Ellipsoid.meridianRadius_eq he hne, mul_div_cancel_left₀ _ hsemimajor]
      exact northern_scale he hof hfitted hcos hparallel hdensity
    rwa [heast, hnorth] at hscale

end Projection

/-! ## The map of an operator -/

namespace Operator

variable {p : Projection ℝ} {e : Ellipsoid ℝ} {latitude : ℝ}

/-- The meridian, the size and the false origin around a mapping magnify its derivative. -/
lemma onMap_hasAxes (op : Operator ℝ) {f : ℝ → ℝ → Except Refusal (Coordinate ℝ)}
    {east north phi : ℝ} (hf : Projection.HasAxes f east north (0, phi)) :
    Projection.HasAxes (fun lambda phi => op.onMap f ⟨lambda, phi⟩) (op.unit * east)
      (op.unit * north) (op.parameters.meridian, phi) := by
  obtain ⟨J, ⟨g, hg, hvalue⟩, haxes⟩ := hf
  set meridian := op.parameters.meridian with hmeridian
  have hpoint : ((meridian, phi) : ℝ × ℝ) - (meridian, 0) = (0, phi) := by simp
  have hshift : HasFDerivAt (fun w : ℝ × ℝ => w - (meridian, 0)) (.id ℝ (ℝ × ℝ)) (meridian, phi) :=
    (hasFDerivAt_id _).sub_const _
  rw [← hpoint] at hg hvalue
  have hmoved := hg.comp (meridian, phi) hshift
  refine ⟨_, ⟨fun w => (op.unit * (g (w - (meridian, 0))).1 + op.parameters.falseEasting,
    op.unit * (g (w - (meridian, 0))).2 + op.parameters.falseNorthing),
      ((hmoved.fst.const_mul op.unit).add_const _).prodMk
        ((hmoved.snd.const_mul op.unit).add_const _), ?_⟩, fun w => ?_⟩
  · filter_upwards [hshift.continuousAt.tendsto.eventually hvalue] with w hw
    have hlatitude : (w - (meridian, 0)).2 = w.2 := sub_zero w.2
    rw [hlatitude] at hw
    exact op.onMap_ok ⟨w.1, w.2⟩ hw
  · simp [haxes, mul_assoc]

/-- **The centre of a map is true to scale.**  The mapping of the projection takes the centre to
the origin, and there a radian of longitude and one of latitude are as long as on the ellipsoid,
with the semimajor axis as the unit, and go east and north.  So the map of an operator has its scale
in every direction. -/
theorem true_to_scale (hp : Projection.centredAt latitude e = .ok p) (hsemimajor : e.semimajor ≠ 0)
    (hshape : e.flattening = 0 ∨
      0 < e.flattening ∧ e.flattening < 1 ∧ 0.01 ≤ e.thirdFlattening)
    (hcentre : latitude = 0 ∨ p.aspect = .oblique ∧ |latitude| < Real.pi / 2) :
    p.forward 0 latitude = .ok ⟨0, 0⟩ ∧
      Projection.HasAxes p.forward
        (e.primeVerticalRadius latitude * Real.cos latitude / e.semimajor)
        (e.meridianRadius latitude / e.semimajor) (0, latitude) ∧
      ∀ (P : Parameters ℝ) (op : Operator ℝ), P.ellipsoid = e → P.latitude = latitude →
        (create P).run.value = .ok op →
        ∃ f, op.pointMap? op.toMap = some f ∧
          f ⟨P.meridian, latitude⟩ = .ok ⟨P.falseEasting, P.falseNorthing⟩ ∧
          ∃ J, Projection.HasDerivative (fun lambda phi => f ⟨lambda, phi⟩) J
              (P.meridian, latitude) ∧
            ∀ east north, Exact.hypot (J (east, north)).1 (J (east, north)).2 =
              P.scale * Exact.hypot (e.primeVerticalRadius latitude * Real.cos latitude * east)
                (e.meridianRadius latitude * north) := by
  obtain ⟨horigin, hscale⟩ := Projection.forward_centre hp hsemimajor hshape hcentre
  refine ⟨horigin, hscale, ?_⟩
  rintro P op rfl rfl hop
  obtain ⟨hvalid, q, hq, rfl⟩ := create_eq_ok.mp hop
  obtain rfl : p = q := Except.ok.inj (hp.symm.trans hq)
  -- An operator scales and shifts what the projection gives, and neither turns the axes.
  obtain ⟨J, hJ, haxes⟩ := onMap_hasAxes (ofProjection P p) hscale
  refine ⟨_, pointMap?_toMap P p, ?_, J, hJ, ?_⟩
  · have hmeridian : P.meridian - (ofProjection P p).parameters.meridian = 0 := sub_self _
    have hvalue := onMap_ok (ofProjection P p) ⟨P.meridian, P.latitude⟩ (d := ⟨0, 0⟩)
      (f := p.forward) (by rw [hmeridian, horigin])
    rw [hvalue]
    refine congrArg Except.ok (Coordinate.ext ?_ ?_)
    · change _ * 0 + P.falseEasting = _
      ring
    · change _ * 0 + P.falseNorthing = _
      ring
  · intro east north
    have hunit : (ofProjection P p).unit = P.scale * P.ellipsoid.semimajor := mul_comm _ _
    rw [← Exact.hypot_mul hvalid.scale_pos.le, haxes, hunit]
    congr 1
    · field_simp
    · field_simp

/-- One axis half as long as the other.  With the centre on the equator a radian of latitude is a
quarter of one of longitude, and a map three times as large has the scale three to the north-east;
a centre one radian from the equator is mapped to the origin too. -/
theorem true_to_scale_half_flattened :
    (∃ p, Projection.centredAt 0 (⟨1, 1 / 2⟩ : Ellipsoid ℝ) = .ok p ∧
      Projection.HasAxes p.forward 1 (1 / 4) (0, 0)) ∧
    (∃ op f J, (create (⟨⟨1, 1 / 2⟩, 0, 2, 5, 7, 3, false⟩ : Parameters ℝ)).run.value = .ok op ∧
      op.pointMap? .forward = some f ∧ f ⟨2, 0⟩ = .ok ⟨5, 7⟩ ∧
      Projection.HasDerivative (fun lambda phi => f ⟨lambda, phi⟩) J (2, 0) ∧
      Exact.hypot (J (1, 4)).1 (J (1, 4)).2 = 3 * Exact.hypot 1 1) ∧
    ∃ p, Projection.centredAt 1 (⟨1, 1 / 2⟩ : Ellipsoid ℝ) = .ok p ∧ p.aspect = .oblique ∧
      p.forward 0 1 = .ok ⟨0, 0⟩ := by
  set e : Ellipsoid ℝ := ⟨1, 1 / 2⟩ with hdef
  have he : e.Flattened := Ellipsoid.flattened_half
  have hne : e.flattening ≠ 0 := by norm_num [hdef]
  have hshape : e.flattening = 0 ∨
      0 < e.flattening ∧ e.flattening < 1 ∧ 0.01 ≤ e.thirdFlattening := by
    right
    simp only [hdef, Ellipsoid.thirdFlattening]
    norm_num
  have hterm : e.curvatureTerm 0 = 1 := by simp [Ellipsoid.curvatureTerm, Arith.sq]
  have hparallel : e.primeVerticalRadius 0 = 1 := by
    rw [Ellipsoid.primeVerticalRadius_eq hne, hterm, Real.sqrt_one, div_one]
    exact one_mul 1
  have hmeridian : e.meridianRadius 0 = 1 / 4 := by
    rw [Ellipsoid.meridianRadius_eq he hne, hterm, Real.sqrt_one]
    simp only [hdef, Ellipsoid.eccentricitySq]
    norm_num
  have hequator := Projection.centredAt_zero he
  have htrue := true_to_scale hequator one_ne_zero hshape (.inl rfl)
  rw [hparallel, hmeridian, Real.cos_zero, mul_one] at htrue
  obtain ⟨-, hscale, hoperators⟩ := htrue
  refine ⟨⟨_, hequator, ?_⟩, ?_, ?_⟩
  · simpa [hdef] using hscale
  · set P : Parameters ℝ := ⟨e, 0, 2, 5, 7, 3, false⟩
    have hvalid : P.Valid := ⟨one_pos, he.pos.le, he.lt_one, three_pos⟩
    have hop := create_eq_ok.mpr ⟨hvalid, _, hequator, rfl⟩
    obtain ⟨f, hf, hvalue, J, hJ, hlength⟩ := hoperators P _ rfl rfl hop
    refine ⟨_, f, J, hop, hf, hvalue, hJ, (hlength 1 4).trans ?_⟩
    norm_num
  · obtain ⟨hvalue, -⟩ := true_to_scale (Projection.centredAt_one he) one_ne_zero hshape
      (.inr ⟨rfl, by rw [abs_one]; linarith [Real.pi_gt_three]⟩)
    exact ⟨_, Projection.centredAt_one he, rfl, hvalue⟩

end Operator

end EqualArea
