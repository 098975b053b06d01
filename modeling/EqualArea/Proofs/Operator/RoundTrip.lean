import EqualArea.Proofs.Angle
import EqualArea.Proofs.Ellipsoid.RoundTrip
import EqualArea.Proofs.Operator.Apply
import EqualArea.Proofs.Sphere.RoundTrip

/-!
# There and back through an operator

A set goes to the map and back through an operator with any central meridian, size and false
origin.

* `Projection.TakenForCentre`, `Projection.restored` — the points of the map that are not told from
  the centre, and the latitude that comes back from the others.
* `Projection.forward_add_turns`, `Projection.inverse_forward` — a projection knows longitudes up to
  whole turns, and its two mappings undo each other within one turn.
* `Operator.offMap_onMap` — one coordinate through the operator, from any longitude.
* `Operator.apply_round_trip` — every coordinate of a set, each at its own place.

**Design.**  The longitude is brought into the turn of the central meridian before the mapping of
the projection, and wrapped once more after it, so it comes back up to whole turns only.  The points
that a mapping of an ellipsoid takes for a pole all go to the origin of the map, so they are among
those that the way back takes for the centre.
-/

namespace EqualArea

open LawfulCoordinateSet (toList)

namespace Projection

variable {p : Projection ℝ} {e : Ellipsoid ℝ} {latitude lambda phi : ℝ} {c : Coordinate ℝ}

/-- A point of the map that the way back takes for the centre. -/
def TakenForCentre (p : Projection ℝ) (c : Coordinate ℝ) : Prop :=
  match p.spheroid? with
  | none => p.TakenForSphereCentre c.first c.second
  | some s => p.TakenForEllipsoidCentre s c.first c.second

/-- The latitude that comes back: on an ellipsoid it has been converted to the authalic one and
back. -/
noncomputable def restored (p : Projection ℝ) (phi : ℝ) : ℝ :=
  match p.spheroid? with
  | none => phi
  | some s => s.geographicLatitude (s.authalicLatitude phi)

/-- Neither mapping to the plane tells a longitude from one whole turns away. -/
lemma forward_add_turns (p : Projection ℝ) (lambda phi : ℝ) (k : ℤ) :
    p.forward (lambda + k * (2 * Real.pi)) phi = p.forward lambda phi := by
  unfold forward
  split_ifs
  · simp only [forwardEllipsoid, Exact.sin_eq, Exact.cos_eq, Real.sin_add_int_mul_two_pi,
      Real.cos_add_int_mul_two_pi]
  · simp only [forwardSphere, Exact.sin_eq, Exact.cos_eq, Real.sin_add_int_mul_two_pi,
      Real.cos_add_int_mul_two_pi]

lemma sphere_inverse_forward (he : e.eccentricitySq = 0) (hp : centredAt latitude e = .ok p)
    (hoblique : p.aspect = .oblique → |latitude| < Real.pi / 2)
    (hlambda : lambda ∈ Set.Ioc (-Real.pi) Real.pi)
    (hphi : phi ∈ Set.Ioo (-(Real.pi / 2)) (Real.pi / 2))
    (hforward : p.forwardSphere lambda phi = .ok c)
    (hcentre : ¬p.TakenForSphereCentre c.first c.second) :
    p.inverseSphere c.first c.second = .ok ⟨lambda, phi⟩ := by
  rcases p.hasPole_or with ⟨sigma, hpole⟩ | hdisc
  · exact forward_then_inverse_polar hpole hlambda hphi hforward
  · obtain ⟨F, hF, hcos⟩ := exists_frame_of_sphere he hp hdisc
    rw [hF.takenForSphereCentre_iff, not_le] at hcentre
    exact forward_then_inverse_disc hF (hcos hoblique) hlambda hphi hforward hcentre

lemma ellipsoid_inverse_forward (he : e.Flattened) (hp : centredAt latitude e = .ok p)
    {s : Spheroid ℝ} (hs : p.spheroid? = some s) (hlambda : lambda ∈ Set.Ioc (-Real.pi) Real.pi)
    (hphi : phi ∈ Set.Ioo (-(Real.pi / 2)) (Real.pi / 2))
    (hforward : p.forwardEllipsoid lambda phi = .ok c)
    (hcentre : ¬p.TakenForEllipsoidCentre s c.first c.second) :
    p.inverseEllipsoid c.first c.second =
      .ok ⟨lambda, s.geographicLatitude (s.authalicLatitude phi)⟩ := by
  obtain ⟨t, ht, hof, hframe⟩ := exists_spheroid he hp
  obtain rfl := Option.some.inj (ht.symm.trans hs)
  rcases p.hasPole_or with ⟨sigma, hpole⟩ | hdisc
  · have horigin : c ≠ Coordinate.origin := by
      rintro rfl
      refine hcentre (hpole.takenForEllipsoidCentre_iff.mpr ?_)
      change (0 : ℝ) * 0 + 0 * 0 = 0
      norm_num
    exact ellipsoid_forward_then_inverse_polar he hs hof hpole hlambda hphi hforward horigin
  · obtain ⟨hfitted, F, hF⟩ := hframe hdisc
    rw [hF.takenForEllipsoidCentre_iff hfitted, not_lt, ← hfitted.hypot_eq] at hcentre
    exact ellipsoid_forward_then_inverse_disc he hs hof hfitted hF hlambda hphi hforward hcentre

/-- Within one turn the way back restores the longitude, sphere or not. -/
theorem inverse_forward (he : e.eccentricitySq ∈ Set.Ico (0 : ℝ) 1)
    (hp : centredAt latitude e = .ok p)
    (hoblique : p.aspect = .oblique → |latitude| < Real.pi / 2)
    (hlambda : lambda ∈ Set.Ioc (-Real.pi) Real.pi)
    (hphi : phi ∈ Set.Ioo (-(Real.pi / 2)) (Real.pi / 2))
    (hforward : p.forward lambda phi = .ok c) (hcentre : ¬p.TakenForCentre c) :
    p.inverse c.first c.second = .ok ⟨lambda, p.restored phi⟩ := by
  unfold forward at hforward
  unfold inverse TakenForCentre restored at *
  by_cases hsphere : e.eccentricitySq = 0
  · simp only [spheroid?_eq_none hsphere hp, Option.isSome_none, Bool.false_eq_true, if_false]
      at hforward hcentre ⊢
    exact sphere_inverse_forward hsphere hp hoblique hlambda hphi hforward hcentre
  · have hflattened : e.Flattened := ⟨lt_of_le_of_ne he.1 (Ne.symm hsphere), he.2⟩
    obtain ⟨s, hs, -⟩ := exists_spheroid hflattened hp
    simp only [hs, Option.isSome_some, if_true] at hforward hcentre ⊢
    exact ellipsoid_inverse_forward hflattened hp hs hlambda hphi hforward hcentre

end Projection

namespace Operator

variable {P : Parameters ℝ} {p : Projection ℝ} {op : Operator ℝ} {lambda phi : ℝ}
  {c : Coordinate ℝ}

/-- One coordinate to the map and back.  The longitude relative to the central meridian is reduced
to one turn first. -/
theorem offMap_onMap (hvalid : P.Valid)
    (hp : Projection.centredAt P.latitude P.ellipsoid = .ok p)
    (hoblique : p.aspect = .oblique → |P.latitude| < Real.pi / 2) (hphi : |phi| < Real.pi / 2)
    (hforward : p.forward (lambda - P.meridian) phi = .ok c) (hcentre : ¬p.TakenForCentre c) :
    ∃ lambda', (ofProjection P p).offMap p.inverse
        ⟨(ofProjection P p).unit * c.first + P.falseEasting,
          (ofProjection P p).unit * c.second + P.falseNorthing⟩ = .ok ⟨lambda', p.restored phi⟩ ∧
      lambda' ∈ Set.Icc (-Real.pi) Real.pi ∧ ∃ k : ℤ, lambda' = lambda + k * (2 * Real.pi) := by
  have hunit : (ofProjection P p).unit ≠ 0 :=
    (mul_pos hvalid.semimajor_pos hvalid.scale_pos).ne'
  -- The mapping knows a longitude up to whole turns, and it is undone for the one within a half
  -- turn.
  set mu := toIocMod Real.two_pi_pos (-Real.pi) (lambda - P.meridian) with hmu
  set j := toIocDiv Real.two_pi_pos (-Real.pi) (lambda - P.meridian)
  have hmem : mu ∈ Set.Ioc (-Real.pi) Real.pi := by
    have h := toIocMod_mem_Ioc Real.two_pi_pos (-Real.pi) (lambda - P.meridian)
    rwa [← hmu, show -Real.pi + 2 * Real.pi = Real.pi by ring] at h
  have hturns : mu + j * (2 * Real.pi) = lambda - P.meridian :=
    toIocMod_add_toIocDiv_mul Real.two_pi_pos _ _
  rw [← hturns, p.forward_add_turns] at hforward
  have hinverse := Projection.inverse_forward hvalid.eccentricitySq_mem hp hoblique hmem
    (abs_lt.mp hphi) hforward hcentre
  have hback : p.inverse
      (((ofProjection P p).unit * c.first + P.falseEasting - P.falseEasting) /
        (ofProjection P p).unit)
      (((ofProjection P p).unit * c.second + P.falseNorthing - P.falseNorthing) /
        (ofProjection P p).unit) = .ok ⟨mu, p.restored phi⟩ := by
    rwa [add_sub_cancel_right, add_sub_cancel_right, mul_div_cancel_left₀ _ hunit,
      mul_div_cancel_left₀ _ hunit]
  obtain ⟨k, hk⟩ := Angle.exists_wrap_eq (mu + P.meridian)
  refine ⟨_, offMap_ok (ofProjection P p) ⟨_, _⟩ hback,
    Set.Ico_subset_Icc_self (Angle.wrap_mem _), k - j, hk.trans ?_⟩
  push_cast
  linear_combination hturns

/-- **An operator undoes itself on any set.**  Applied to the map and back, it restores every
coordinate between the poles that has an image not taken for the centre: the longitude up to whole
turns, and the latitude as far as the conversion of latitudes does.  Each such coordinate is among
those counted both times and stays in its place, whatever becomes of the others. -/
theorem apply_round_trip (hop : (create P).run.value = .ok op)
    (hoblique : op.projection.aspect = .oblique → |P.latitude| < Real.pi / 2)
    {σ : Type} [CoordinateSet σ ℝ] [LawfulCoordinateSet σ ℝ] (s : σ) :
    let there := (op.apply op.toMap s).value
    let back := (op.apply op.fromMap there.2).value
    there.1 = (toList s).countP (op.counts op.toMap) ∧
    back.1 = (toList there.2).countP (op.counts op.fromMap) ∧
    ∀ (i : ℕ) (c d : Coordinate ℝ), (toList s)[i]? = some c → |c.second| < Real.pi / 2 →
      op.projection.forward (c.first - P.meridian) c.second = .ok d →
      ¬op.projection.TakenForCentre d →
      op.counts op.toMap c = true ∧
      ∃ (image : Coordinate ℝ) (lambda : ℝ),
        (toList there.2)[i]? = some image ∧ op.counts op.fromMap image = true ∧
        (toList back.2)[i]? = some (⟨lambda, op.projection.restored c.second⟩ : Coordinate ℝ) ∧
        lambda ∈ Set.Icc (-Real.pi) Real.pi ∧
        ∃ k : ℤ, lambda = c.first + k * (2 * Real.pi) := by
  obtain ⟨hvalid, p, hp, rfl⟩ := create_eq_ok.mp hop
  refine ⟨successes_apply _ _ _, successes_apply _ _ _, ?_⟩
  intro i c d hi hphi hforward hcentre
  have hthere := onMap_ok (ofProjection P p) c hforward
  obtain ⟨lambda, hback, hrange, hturns⟩ := offMap_onMap hvalid hp hoblique hphi hforward hcentre
  have htoMap := pointMap?_toMap P p
  have hfromMap := pointMap?_fromMap P p
  have himage := result_of_ok htoMap hthere
  have hrestored := result_of_ok hfromMap hback
  -- A set is mapped member by member, so the place `i` is followed through both applications.
  refine ⟨counts_of_ok htoMap hthere, _, lambda, ?_, counts_of_ok hfromMap hback, ?_, hrange,
    hturns⟩
  · rw [toList_apply, List.getElem?_map, hi, Option.map_some, himage]
    rfl
  · rw [toList_apply, toList_apply, List.getElem?_map, List.getElem?_map, hi, Option.map_some,
      Option.map_some, himage]
    exact congrArg some hrestored

/-- Centred one radian north, with its directions swapped, an operator restores a point more than a
turn east of its meridian, after the antipode of the centre that has no image. -/
theorem apply_round_trip_after_antipode :
    ∃ op, (create (⟨⟨1, 0⟩, 1, 1, 2, 3, 1 / 2, true⟩ : Parameters ℝ)).run.value = .ok op ∧
      let s : Array (Coordinate ℝ) := #[⟨1 + Real.pi, -1⟩, ⟨1 + 5 * Real.pi / 2, 0⟩]
      let there := (op.apply .inverse s).value
      let back := (op.apply .forward there.2).value
      there.1 = 1 ∧ ∃ lambda, back.2[1]? = some ⟨lambda, 0⟩ ∧
        lambda ∈ Set.Icc (-Real.pi) Real.pi ∧
        ∃ k : ℤ, lambda = 1 + 5 * Real.pi / 2 + k * (2 * Real.pi) := by
  set P : Parameters ℝ := ⟨⟨1, 0⟩, 1, 1, 2, 3, 1 / 2, true⟩
  set p : Projection ℝ := Projection.ofSphere .oblique 1
  set s : Array (Coordinate ℝ) := #[⟨1 + Real.pi, -1⟩, ⟨1 + 5 * Real.pi / 2, 0⟩] with hs
  have hpi := Real.pi_gt_three
  have htolerance := tolerance_lt_one
  have hsphere : P.ellipsoid.eccentricitySq = 0 := zero_mul _
  have hvalid : P.Valid :=
    ⟨one_pos, hsphere.ge, hsphere.trans_lt one_pos, by change (0 : ℝ) < 1 / 2; norm_num⟩
  have hp : Projection.centredAt P.latitude P.ellipsoid = .ok p :=
    Projection.centredAt_eq_ok.mpr ⟨_, Aspect.ofLatitude_one, by rw [if_pos hsphere]⟩
  have hop : (create P).run.value = .ok (ofProjection P p) := create_eq_ok.mpr ⟨hvalid, p, hp, rfl⟩
  have hF : p.HasFrame (Frame.ofLatitude 1) := .oblique rfl (Real.sin_sq_add_cos_sq 1)
  -- The first point has no image.  The second is a quarter turn away from the centre, after a whole
  -- turn.
  have hpast : p.forward (1 + Real.pi - P.meridian) (-1) = .error .beyondAntipode := by
    have hup : (Frame.ofLatitude 1 |>.sight (1 + Real.pi - 1) (-1)).up = -1 := by
      simp only [Frame.sight, Frame.ofLatitude, add_sub_cancel_left, Real.sin_neg, Real.cos_neg,
        Real.cos_pi]
      linear_combination -Real.sin_sq_add_cos_sq 1
    have hvalue := Projection.forwardSphere_of_frame hF (1 + Real.pi - 1) (-1)
    rwa [hup, if_pos (by linarith [tolerance_pos])] at hvalue
  have hforward : p.forward (1 + 5 * Real.pi / 2 - P.meridian) 0 = .ok ⟨Real.sqrt 2, 0⟩ := by
    have hturn : 1 + 5 * Real.pi / 2 - P.meridian = Real.pi / 2 + (1 : ℤ) * (2 * Real.pi) := by
      change 1 + 5 * Real.pi / 2 - 1 = _
      push_cast
      ring
    rw [hturn, p.forward_add_turns]
    exact Projection.forwardSphere_quarter_turn hF
  have hcentre : ¬p.TakenForCentre ⟨Real.sqrt 2, 0⟩ := by
    have hsqrt := Real.one_lt_sqrt_two
    change ¬Exact.hypot (Real.sqrt 2) 0 ≤ tolerance
    rw [Exact.hypot_zero_right (Real.sqrt_nonneg 2)]
    linarith
  have hoblique : p.aspect = .oblique → |P.latitude| < Real.pi / 2 := by
    intro
    change |(1 : ℝ)| < _
    rw [abs_one]
    linarith
  obtain ⟨hcount, -, hmember⟩ := apply_round_trip hop hoblique s
  obtain ⟨hcounted, -, lambda, -, -, hback, hrange, hturns⟩ := hmember 1 _ _ rfl
    (by rw [abs_zero]; linarith) hforward hcentre
  have huncounted : (ofProjection P p).counts .inverse ⟨1 + Real.pi, -1⟩ = false :=
    counts_of_error (pointMap?_toMap P p) (onMap_error (ofProjection P p) _ hpast)
  refine ⟨_, hop, ?_, lambda, Array.getElem?_toList.symm.trans hback, hrange, hturns⟩
  refine hcount.trans ?_
  change List.countP _ [_, _] = 1
  rw [List.countP_cons, List.countP_singleton]
  change (if (ofProjection P p).counts .inverse _ = true then 1 else 0) +
    (if (ofProjection P p).counts .inverse _ = true then 1 else 0) = 1
  rw [huncounted]
  exact congrArg (fun b => (if b = true then 1 else 0) + 0) hcounted

end Operator

end EqualArea
