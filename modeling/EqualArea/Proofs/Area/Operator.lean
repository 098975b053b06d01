import EqualArea.Proofs.Area.Mapping
import EqualArea.Proofs.Operator.Created

/-!
# Operators keep areas

* `Operator.chart` — the map of an operator as a function of two real variables.
* `Operator.regularDomain` — where it has a value, other than by taking a point for a pole.
* `Operator.equal_area` — in the interior of that domain the map is differentiable, and its areal
  scale is the square of the scale of the operator.
-/

namespace EqualArea

namespace Operator

variable {P : Parameters ℝ} {p : Projection ℝ} {op : Operator ℝ} {lambda phi : ℝ}

/-- Longitude and latitude to easting and northing.  Where the operator has no value the origin
stands in. -/
noncomputable def chart (op : Operator ℝ) (v : ℝ × ℝ) : ℝ × ℝ :=
  match op.pointMap? .forward with
  | none => 0
  | some f =>
    match f ⟨v.1, v.2⟩ with
    | .ok c => (c.first, c.second)
    | .error _ => 0

/-- The longitudes and latitudes at which the operator has a value and does not take the point for
a pole. -/
def regularDomain (op : Operator ℝ) : Set (ℝ × ℝ) :=
  {v | (∃ f c, op.pointMap? .forward = some f ∧ f ⟨v.1, v.2⟩ = .ok c) ∧
    ¬op.projection.TakenForPole v.2}

lemma pointMap?_forward (hinverted : P.inverted = false) :
    (ofProjection P p).pointMap? .forward = some ((ofProjection P p).onMap p.forward) := by
  rw [pointMap?_ofProjection, hinverted, if_neg (by simp)]

/-- In the regular domain the map is that of the projection, magnified and moved. -/
lemma exists_of_mem_regularDomain (hinverted : P.inverted = false) {v : ℝ × ℝ}
    (hv : v ∈ (ofProjection P p).regularDomain) :
    ∃ c, p.forward (v.1 - P.meridian) v.2 = .ok c ∧ ¬p.TakenForPole v.2 ∧
      (ofProjection P p).chart v =
        (P.ellipsoid.semimajor * P.scale * c.first + P.falseEasting,
          P.ellipsoid.semimajor * P.scale * c.second + P.falseNorthing) := by
  obtain ⟨⟨f, d, hf, hd⟩, hregular⟩ := hv
  have hmap : (ofProjection P p).pointMap? .forward = some ((ofProjection P p).onMap p.forward) :=
    pointMap?_forward hinverted
  obtain rfl := Option.some.inj (hmap.symm.trans hf)
  cases hc : p.forward (v.1 - P.meridian) v.2 with
  | error refusal =>
    have herror := onMap_error (ofProjection P p) ⟨v.1, v.2⟩ hc
    rw [hd] at herror
    cases herror
  | ok c =>
    have hok := onMap_ok (ofProjection P p) ⟨v.1, v.2⟩ hc
    refine ⟨c, rfl, hregular, ?_⟩
    simp only [chart, hmap, hok]
    rfl

lemma mem_regularDomain (hinverted : P.inverted = false) {v : ℝ × ℝ} {c : Coordinate ℝ}
    (hc : p.forward (v.1 - P.meridian) v.2 = .ok c) (hregular : ¬p.TakenForPole v.2) :
    v ∈ (ofProjection P p).regularDomain :=
  ⟨⟨_, _, pointMap?_forward hinverted, onMap_ok (ofProjection P p) ⟨v.1, v.2⟩ hc⟩,
    hregular⟩

/-- The mapping of the projection has the density of the ellipsoid, sphere or not. -/
lemma forward_hasDensity {e : Ellipsoid ℝ} {latitude : ℝ}
    (hshape : e.eccentricitySq = 0 ∨
      e.Flattened ∧ e.flattening < 1 ∧ 0.01 ≤ e.thirdFlattening)
    (hp : Projection.centredAt latitude e = .ok p) :
    Projection.HasDensity p.forward (fun phi => ¬p.TakenForPole phi) e.density := by
  rcases hshape with he | ⟨he, hflat, hthird⟩
  · have hforward : p.forward = p.forwardSphere := by
      simp [Projection.forward, Projection.spheroid?_eq_none he hp]
    have hdensity : e.density = Real.cos := funext (Ellipsoid.density_of_sphere he)
    obtain ⟨g, hg⟩ := Projection.forwardSphere_hasDensity fun hdisc =>
      (Projection.exists_frame_of_sphere he hp hdisc).imp fun _ h => h.1
    rw [hforward, hdensity]
    exact ⟨g, fun lambda phi c hc _ => hg lambda phi c hc trivial⟩
  · obtain ⟨s, hs, hof, hframe⟩ := Projection.exists_spheroid he hp
    have hforward : p.forward = p.forwardEllipsoid := by simp [Projection.forward, hs]
    rw [hforward]
    exact Projection.forwardEllipsoid_hasDensity he hflat hthird hs hof hframe

/-- A point away from the antipode of an equatorial or oblique centre lies in the interior of the
regular domain. -/
lemma mem_interior_regularDomain {e : Ellipsoid ℝ} {s : Spheroid ℝ} {F : Frame}
    (hinverted : P.inverted = false) (he : e.Flattened) (hflat : e.flattening < 1)
    (hthird : 0.01 ≤ e.thirdFlattening) (hs : p.spheroid? = some s) (hof : s.Of e)
    (hfitted : s.Fitted) (hF : p.HasFrame F) (hcos : Real.cos phi ≠ 0)
    (hfar : tolerance < 1 + (F.sight (lambda - P.meridian) (s.authalicLatitude phi)).up) :
    (lambda, phi) ∈ interior (ofProjection P p).regularDomain := by
  have hforward : p.forward = p.forwardEllipsoid := by simp [Projection.forward, hs]
  obtain ⟨slope, hslope, -⟩ := Projection.hasDerivAt_authalicLatitude he hof hflat hthird hcos
  have hlongitude : ContinuousAt (fun v : ℝ × ℝ => v.1 - P.meridian) (lambda, phi) :=
    continuousAt_fst.sub continuousAt_const
  have hlatitude : ContinuousAt (fun v : ℝ × ℝ => s.authalicLatitude v.2) (lambda, phi) :=
    hslope.continuousAt.comp_of_eq continuousAt_snd rfl
  have hsight : ContinuousAt (fun v : ℝ × ℝ => (F.sight v.1 v.2).up)
      (lambda - P.meridian, s.authalicLatitude phi) :=
    HasFDerivAt.continuousAt (F.hasPartials_up _ _)
  have hup := hsight.comp_of_eq (hlongitude.prodMk hlatitude) rfl
  have hlt : tolerance - 1 < (F.sight (lambda - P.meridian) (s.authalicLatitude phi)).up := by
    linarith
  rw [mem_interior_iff_mem_nhds]
  filter_upwards [hup.tendsto.eventually_const_lt hlt] with v hv
  have hv' : tolerance - 1 < (F.sight (v.1 - P.meridian) (s.authalicLatitude v.2)).up := hv
  have hantipode : ¬1 + (F.sight (v.1 - P.meridian) (s.authalicLatitude v.2)).up < tolerance := by
    linarith
  have hvalue := Projection.forwardEllipsoid_of_frame hs hfitted hF (v.1 - P.meridian) v.2
  rw [if_neg hantipode, ← hforward] at hvalue
  exact mem_regularDomain hinverted hvalue (hF.not_takenForPole v.2)

/-- The ellipsoids of valid parameters that are a sphere or flat. -/
lemma shape_of_valid (hvalid : P.Valid)
    (hshape : P.ellipsoid.flattening = 0 ∨ 0 < P.ellipsoid.flattening ∧
      P.ellipsoid.flattening < 1 ∧ 0.01 ≤ P.ellipsoid.thirdFlattening) :
    P.ellipsoid.flattening = 0 ∧ P.ellipsoid.eccentricitySq = 0 ∨
      P.ellipsoid.flattening ≠ 0 ∧ P.ellipsoid.Flattened ∧ P.ellipsoid.flattening < 1 ∧
        0.01 ≤ P.ellipsoid.thirdFlattening := by
  rcases hshape with hsphere | ⟨hpos, hlt, hthird⟩
  · exact .inl ⟨hsphere, by simp [Ellipsoid.eccentricitySq, hsphere]⟩
  · have hne : P.ellipsoid.eccentricitySq ≠ 0 :=
      (mul_pos hpos (by linarith : 0 < 2 - P.ellipsoid.flattening)).ne'
    exact .inr ⟨hpos.ne', hvalid.flattened hne, hlt, hthird⟩

/-- **An operator keeps areas.**  Where its map is given by the formula of its aspect, on a
neighbourhood, the map is differentiable, and the determinant of its Jacobian is the area of a unit
of longitude and latitude on the ellipsoid, times the square of the scale. -/
theorem equal_area (hop : (create P).run.value = .ok op) (hinverted : P.inverted = false)
    (hshape : P.ellipsoid.flattening = 0 ∨ 0 < P.ellipsoid.flattening ∧
      P.ellipsoid.flattening < 1 ∧ 0.01 ≤ P.ellipsoid.thirdFlattening)
    (hphi : |phi| < Real.pi / 2) (hdomain : (lambda, phi) ∈ interior op.regularDomain) :
    ∃ J : ℝ × ℝ →L[ℝ] ℝ × ℝ, HasFDerivAt op.chart J (lambda, phi) ∧
      |(J (1, 0)).1 * (J (0, 1)).2 - (J (0, 1)).1 * (J (1, 0)).2| =
        P.scale ^ 2 * P.ellipsoid.meridianRadius phi * P.ellipsoid.primeVerticalRadius phi *
          Real.cos phi := by
  obtain ⟨hvalid, p, hp, rfl⟩ := create_eq_ok.mp hop
  have hcos : 0 < Real.cos phi := Real.cos_pos_of_mem_Ioo (abs_lt.mp hphi)
  have hkind := shape_of_valid hvalid hshape
  have hradii := Ellipsoid.radii_mul_cos (e := P.ellipsoid)
    (hkind.imp And.left fun h => ⟨h.1, h.2.1⟩) phi
  obtain ⟨g, hg⟩ := forward_hasDensity (hkind.imp And.right And.right) hp
  set size := P.ellipsoid.semimajor * P.scale with hsize
  -- A derivative asks for one formula around the point, and that is what the interior of the domain
  -- is for.
  have hformula : (ofProjection P p).chart =ᶠ[nhds (lambda, phi)] fun v =>
      (size * (g (v.1 - P.meridian, v.2)).1 + P.falseEasting,
        size * (g (v.1 - P.meridian, v.2)).2 + P.falseNorthing) := by
    filter_upwards [mem_interior_iff_mem_nhds.mp hdomain] with v hv
    obtain ⟨c, hc, hregular, hchart⟩ := exists_of_mem_regularDomain hinverted hv
    rw [hchart, (hg _ _ c hc hregular).1]
  obtain ⟨c, hc, hregular, -⟩ :=
    exists_of_mem_regularDomain hinverted (interior_subset hdomain)
  have hscale := ((hg _ _ c hc hregular).2 hcos.ne').comp
    ((hasDerivAt_id lambda).sub_const P.meridian) (hasDerivAt_id phi)
  obtain ⟨J, hJ, hdet⟩ := (hscale.map
    (((hasDerivAt_id _).const_mul size).add_const P.falseEasting)
    (((hasDerivAt_id _).const_mul size).add_const P.falseNorthing)).congr_of_eventuallyEq hformula
  have hdensity : 0 ≤ P.ellipsoid.density phi :=
    Ellipsoid.density_nonneg hvalid.eccentricitySq_lt_one hcos.le
  have hsquare : size * 1 * (size * 1) * (1 * 1 * P.ellipsoid.density phi) =
      size ^ 2 * P.ellipsoid.density phi := by ring
  refine ⟨J, hJ, ?_⟩
  rw [hdet, hsquare, abs_of_nonneg (mul_nonneg (sq_nonneg size) hdensity)]
  calc size ^ 2 * P.ellipsoid.density phi
      = P.scale ^ 2 * (P.ellipsoid.semimajor ^ 2 * P.ellipsoid.density phi) := by
        rw [hsize]
        ring
    _ = P.scale ^ 2 * P.ellipsoid.meridianRadius phi * P.ellipsoid.primeVerticalRadius phi *
          Real.cos phi := by
        rw [← hradii]
        ring

/-- At the centre of an equatorial map, on an ellipsoid with one axis half as long as the other, a
unit of longitude and latitude has the area of a quarter. -/
theorem equal_area_half_flattened :
    ∃ op, (create (⟨⟨1, 1 / 2⟩, 0, 0, 0, 0, 1, false⟩ : Parameters ℝ)).run.value = .ok op ∧
      (0, 0) ∈ interior op.regularDomain ∧
      ∃ J : ℝ × ℝ →L[ℝ] ℝ × ℝ, HasFDerivAt op.chart J (0, 0) ∧
        |(J (1, 0)).1 * (J (0, 1)).2 - (J (0, 1)).1 * (J (1, 0)).2| = 1 / 4 := by
  set e : Ellipsoid ℝ := ⟨1, 1 / 2⟩ with he
  set P : Parameters ℝ := ⟨e, 0, 0, 0, 0, 1, false⟩
  have hflattened : e.Flattened := Ellipsoid.flattened_half
  have hp := Projection.centredAt_zero hflattened
  set p := Projection.ofEllipsoid .equatorial 0 e with hpdef
  have hvalid : P.Valid := ⟨one_pos, hflattened.pos.le, hflattened.lt_one, one_pos⟩
  have hop : (create P).run.value = .ok (ofProjection P p) := create_eq_ok.mpr ⟨hvalid, p, hp, rfl⟩
  have hpositive : 0 < e.flattening := by norm_num [he]
  have hflat : e.flattening < 1 := by norm_num [he]
  have hthird : 0.01 ≤ e.thirdFlattening := by
    simp only [he, Ellipsoid.thirdFlattening]
    norm_num
  obtain ⟨s, hs, hof, hframe⟩ := Projection.exists_spheroid hflattened hp
  obtain ⟨hfitted, -⟩ := hframe (.inl rfl)
  have hF : p.HasFrame Frame.equator := .equatorial rfl
  have hinterior : ((0 : ℝ), (0 : ℝ)) ∈ interior (ofProjection P p).regularDomain := by
    have hup : (Frame.equator.sight (0 - 0) (s.authalicLatitude 0)).up = 1 := by
      simp [hof.authalicLatitude_eq, e.authalic_zero, Frame.sight, Frame.equator]
    have htolerance : (tolerance : ℝ) < 1 := by rw [tolerance_eq]; norm_num
    exact mem_interior_regularDomain rfl hflattened hflat hthird hs hof hfitted hF
      (by simp) (by rw [hup]; linarith)
  have hpi := Real.pi_gt_three
  obtain ⟨J, hJ, hdet⟩ := equal_area hop rfl (.inr ⟨hpositive, hflat, hthird⟩)
    (by rw [abs_zero]; linarith) hinterior
  refine ⟨_, hop, hinterior, J, hJ, hdet.trans ?_⟩
  have hradii := Ellipsoid.radii_mul_cos (.inr ⟨hpositive.ne', hflattened⟩) 0
  have hdensity : e.density 0 = 1 / 4 := by
    simp [Ellipsoid.density, Ellipsoid.curvatureTerm, Ellipsoid.eccentricitySq, Arith.sq, he]
    norm_num
  rw [hdensity] at hradii
  change 1 ^ 2 * e.meridianRadius 0 * e.primeVerticalRadius 0 * Real.cos 0 = 1 / 4
  linear_combination hradii

end Operator

end EqualArea
