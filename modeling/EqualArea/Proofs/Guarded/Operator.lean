import EqualArea.Proofs.Guarded.Ellipsoid
import EqualArea.Proofs.Guarded.Sphere
import EqualArea.Proofs.Guarded.Transform
import EqualArea.Proofs.Operator.Created

/-!
# Operators never leave the domain of an operation

Creating an operator and applying it gives in guarded numbers what it gives over the real numbers,
under every verdict, so no partial operation is asked for a value outside its domain.

* `Operator.guarded` — the operator in guarded numbers.
* `Guarded.create_of`, `Guarded.apply_of` — creating it and applying it.
* `Operator.DefinedThroughout`, `Operator.create_definedThroughout` — the same in one statement,
  together with the inequalities it rests on.
-/

namespace EqualArea

/-- The operator in guarded numbers. -/
def Operator.guarded (v : Verdict) (op : Operator ℝ) : Operator (Guarded v) :=
  ofProjection (op.parameters.map Guarded.of) (op.projection.map Guarded.of)

namespace Guarded

variable {v : Verdict} {P : Parameters ℝ} {p : Projection ℝ} {op : Operator ℝ}

/-! ## Creation -/

lemma check_of (h : P.Valid) : (P.map of : Parameters (Guarded v)).check = .ok () := by
  obtain ⟨hsemimajor, hnonneg, hlt, hscale⟩ := h
  have heccentricity : (P.map of : Parameters (Guarded v)).ellipsoid.eccentricitySq =
      of P.ellipsoid.eccentricitySq := rfl
  simp only [Parameters.check, heccentricity]
  simp [Parameters.map, Ellipsoid.map, hsemimajor, hnonneg, hlt, hscale]

lemma record_of (p : Projection ℝ) : (p.map of : Projection (Guarded v)).record = p.record := by
  unfold Projection.record
  cases h : p.spheroid? <;> simp [Projection.map, h]

theorem create_of (hop : (Operator.create P).run.value = .ok op) :
    (Operator.create (P.map of : Parameters (Guarded v))).run =
      ⟨.ok (op.guarded v), (Operator.create P).run.log⟩ := by
  rw [Operator.create_value] at hop
  obtain ⟨hvalid, p, hp, rfl⟩ := Operator.create_eq_ok.mp (Operator.create_value P ▸ hop)
  have hp' : Projection.centredAt (of P.latitude) (P.ellipsoid.map of : Ellipsoid (Guarded v)) =
      .ok (p.map of) :=
    centredAt_of hvalid.eccentricitySq_mem hp
  have hguarded : Operator.ofParameters (P.map of : Parameters (Guarded v)) =
      .ok ((Operator.ofProjection P p).guarded v) := by
    unfold Operator.ofParameters
    rw [check_of hvalid]
    change (Projection.centredAt (of P.latitude) (P.ellipsoid.map of) >>= _) = _
    rw [hp']
    rfl
  rw [Operator.create_of_ok hop, Operator.create_of_ok hguarded]
  exact congrArg (fun r => Logged.mk _ [r]) (record_of p)

/-! ## Points -/

lemma wrap_of (angle : ℝ) : (Angle.wrap (of angle) : Guarded v) = of (Angle.wrap angle) := by
  have hturn : (2 : ℝ) * Arith.pi ≠ 0 := mul_ne_zero two_ne_zero Real.pi_ne_zero
  simp only [Angle.wrap, ofNat_eq, pi_eq, of_mul, of_add, of_rem hturn, of_signum, of_sub]

/-- Both mappings of a projection, whether of a sphere or of an ellipsoid. -/
lemma mappings_of {latitude : ℝ} {e : Ellipsoid ℝ} (he : e.eccentricitySq ∈ Set.Ico (0 : ℝ) 1)
    (hp : Projection.centredAt latitude e = .ok p) (x y : ℝ) :
    (p.map of : Projection (Guarded v)).forward (of x) (of y) =
        (p.forward x y).map (Coordinate.map of) ∧
      (p.map of : Projection (Guarded v)).inverse (of x) (of y) =
        (p.inverse x y).map (Coordinate.map of) := by
  have hspheroid : (p.map of : Projection (Guarded v)).spheroid? =
      p.spheroid?.map (Spheroid.map of) := rfl
  have hframe := Projection.exists_frame he hp
  unfold Projection.forward Projection.inverse
  rw [hspheroid]
  cases hs : p.spheroid? with
  | none => exact ⟨forwardSphere_of p x y, inverseSphere_of hframe x y⟩
  | some s =>
    obtain ⟨hflattened, hof, hfitted⟩ := Projection.spheroid_of_centredAt he hp hs
    exact ⟨forwardEllipsoid_of hflattened hs hof hframe x y,
      inverseEllipsoid_of hflattened hs hof hfitted x y⟩

lemma onMap_of {f : ℝ → ℝ → Except Refusal (Coordinate ℝ)}
    {g : Guarded v → Guarded v → Except Refusal (Coordinate (Guarded v))}
    (hg : ∀ x y, g (of x) (of y) = (f x y).map (Coordinate.map of)) (op : Operator ℝ)
    (c : Coordinate ℝ) :
    (op.guarded v).onMap g (c.map of) = (op.onMap f c).map (Coordinate.map of) := by
  have hpoint : g ((c.map of).first - (op.guarded v).parameters.meridian) (c.map of).second =
      (f (c.first - op.parameters.meridian) c.second).map (Coordinate.map of) := hg _ _
  unfold Operator.onMap
  rw [hpoint]
  cases f (c.first - op.parameters.meridian) c.second <;> rfl

lemma offMap_of {f : ℝ → ℝ → Except Refusal (Coordinate ℝ)}
    {g : Guarded v → Guarded v → Except Refusal (Coordinate (Guarded v))}
    (hg : ∀ x y, g (of x) (of y) = (f x y).map (Coordinate.map of)) {op : Operator ℝ}
    (hunit : op.unit ≠ 0) (c : Coordinate ℝ) :
    (op.guarded v).offMap g (c.map of) = (op.offMap f c).map (Coordinate.map of) := by
  have hfirst : ((c.map of).first - (op.guarded v).parameters.falseEasting) /
      (op.guarded v).unit = of ((c.first - op.parameters.falseEasting) / op.unit) := of_div hunit
  have hsecond : ((c.map of).second - (op.guarded v).parameters.falseNorthing) /
      (op.guarded v).unit = of ((c.second - op.parameters.falseNorthing) / op.unit) := of_div hunit
  unfold Operator.offMap
  rw [hfirst, hsecond, hg]
  cases f ((c.first - op.parameters.falseEasting) / op.unit)
      ((c.second - op.parameters.falseNorthing) / op.unit) with
  | error refusal => rfl
  | ok c =>
    change Except.ok (⟨Angle.wrap (of (c.first + op.parameters.meridian)), of c.second⟩ :
      Coordinate (Guarded v)) = _
    rw [wrap_of]
    rfl

/-! ## Sets -/

/-- Applying a new operator, in either direction, to any coordinates. -/
theorem apply_of (hop : (Operator.create P).run.value = .ok op) (direction : Direction)
    (cs : Array (Coordinate ℝ)) :
    (op.guarded v).apply direction (cs.map (Coordinate.map of)) =
      ⟨((op.apply direction cs).value.1,
          (op.apply direction cs).value.2.map (Coordinate.map of)),
        (op.apply direction cs).log⟩ := by
  obtain ⟨hvalid, p, hp, rfl⟩ := Operator.create_eq_ok.mp hop
  have hunit : (Operator.ofProjection P p).unit ≠ 0 :=
    (mul_pos hvalid.semimajor_pos hvalid.scale_pos).ne'
  have hmappings := mappings_of (v := v) hvalid.eccentricitySq_mem hp
  have hreal := Operator.pointMap?_ofProjection P p direction
  have hguarded : ((Operator.ofProjection P p).guarded v).pointMap? direction =
      some (if P.inverted = decide (direction = Direction.forward) then
          ((Operator.ofProjection P p).guarded v).offMap (p.map of : Projection (Guarded v)).inverse
        else ((Operator.ofProjection P p).guarded v).onMap
          (p.map of : Projection (Guarded v)).forward) :=
    Operator.pointMap?_ofProjection _ _ direction
  -- Whichever mapping runs, it is the same over both kinds of numbers, and the loop asks for no
  -- more.
  obtain ⟨f, g, hf, hg, hfg⟩ : ∃ f g, (Operator.ofProjection P p).pointMap? direction = some f ∧
      ((Operator.ofProjection P p).guarded v).pointMap? direction = some g ∧
        ∀ c, g (c.map of) = (f c).map (Coordinate.map of) := by
    split_ifs at hreal hguarded with hswap
    · exact ⟨_, _, hreal, hguarded, offMap_of (fun x y => (hmappings x y).2) hunit⟩
    · exact ⟨_, _, hreal, hguarded, onMap_of (fun x y => (hmappings x y).1) _⟩
  have htransform : CoordinateSet.transform g (cs.map (Coordinate.map of)) =
      (CoordinateSet.transform f cs).map of := CoordinateSet.transform_map nan_eq.symm hfg cs
  unfold Operator.apply
  rw [hf, hg]
  simp only [htransform]
  rfl

end Guarded

namespace Operator

open Guarded (of)

variable {P : Parameters ℝ} {op : Operator ℝ}

/-- No operation is asked for a value outside its domain, neither when the operator is created nor
when it is applied. -/
structure DefinedThroughout (P : Parameters ℝ) (op : Operator ℝ) : Prop where
  /-- The creation meets nothing undefined: it ends with the same numbers under every verdict. -/
  create_eq : ∀ v, (create (P.map of : Parameters (Guarded v))).run =
    ⟨.ok (op.guarded v), (create P).run.log⟩
  /-- Nor does the application to any coordinates, in either direction. -/
  apply_eq : ∀ v direction (cs : Array (Coordinate ℝ)),
    (op.guarded v).apply direction (cs.map (Coordinate.map of)) =
      ⟨((op.apply direction cs).value.1,
          (op.apply direction cs).value.2.map (Coordinate.map of)),
        (op.apply direction cs).log⟩
  /-- The authalic latitude is defined at every latitude, also where a mapping finds the point to be
  the antipode before it uses it. -/
  authalicLatitude_eq : ∀ v s phi, op.projection.spheroid? = some s →
    (s.map of : Spheroid (Guarded v)).authalicLatitude (of phi) = of (s.authalicLatitude phi)
  /-- The scale of the mapping of the ellipsoid is taken of nothing negative. -/
  scale_nonneg : ∀ s lambda phi, op.projection.spheroid? = some s →
    (op.projection.aspect = .equatorial →
      0 ≤ 1 + Real.cos (s.authalicLatitude phi) * Real.cos lambda) ∧
    (op.projection.aspect = .oblique →
      0 ≤ 1 + op.projection.sinCentre * Real.sin (s.authalicLatitude phi) +
        op.projection.cosCentre * Real.cos (s.authalicLatitude phi) * Real.cos lambda)
  /-- The cosine of an oblique centre is not zero. -/
  cosCentre_ne_zero : op.projection.aspect = .oblique → op.projection.cosCentre ≠ 0
  /-- Nor are the stretch and the radius of an equatorial or oblique aspect, also at the points that
  are found to be the centre before the radius is used. -/
  stretch_ne_zero : ∀ s, op.projection.spheroid? = some s →
    op.projection.aspect = .equatorial ∨ op.projection.aspect = .oblique →
      s.stretch ≠ 0 ∧ s.authalicRadius ≠ 0
  /-- The arc sines of the inverse mapping of the sphere, which are not clamped, are those of
  sines. -/
  asin_mem : ∀ x y, ¬1 < Exact.hypot x y * 0.5 →
    Exact.hypot x y * 0.5 ∈ Set.Icc (-1 : ℝ) 1 ∧
    (tolerance < Exact.hypot x y → op.projection.aspect = .equatorial →
      y * Real.sin (2 * Real.arcsin (Exact.hypot x y * 0.5)) / Exact.hypot x y ∈
        Set.Icc (-1 : ℝ) 1) ∧
    (tolerance < Exact.hypot x y → op.projection.aspect = .oblique →
      Real.cos (2 * Real.arcsin (Exact.hypot x y * 0.5)) * op.projection.sinCentre +
          y * Real.sin (2 * Real.arcsin (Exact.hypot x y * 0.5)) * op.projection.cosCentre /
            Exact.hypot x y ∈ Set.Icc (-1 : ℝ) 1)
  /-- A correction is taken where the cosine is positive, and it is a number, so the iteration does
  not end for want of one. -/
  newtonStep_isFinite : ∀ v s q phi, op.projection.spheroid? = some s →
    ¬Real.pi / 2 - |phi| < 1e-12 →
      0 < Real.cos phi ∧
        Arith.isFinite (Authalic.newtonStep (of s.ellipsoid.eccentricitySq) (of q) (of phi) :
          Guarded v) = true

/-- **Nothing undefined is ever evaluated** by an operator that can be created. -/
theorem create_definedThroughout (hop : (create P).run.value = .ok op) :
    DefinedThroughout P op := by
  obtain ⟨hvalid, p, hp, hop'⟩ := create_eq_ok.mp hop
  obtain rfl : op.projection = p := by
    rw [hop']
    rfl
  have he := hvalid.eccentricitySq_mem
  have hframe := Projection.exists_frame he hp
  exact {
    create_eq := fun v => Guarded.create_of hop
    apply_eq := fun v => Guarded.apply_of hop
    authalicLatitude_eq := by
      intro v s phi hs
      obtain ⟨hflattened, hof, -⟩ := Projection.spheroid_of_centredAt he hp hs
      exact Guarded.spheroid_authalicLatitude_of hflattened hof phi
    scale_nonneg := by
      intro s lambda phi hs
      refine ⟨fun _ => Projection.equatorial_scale_nonneg lambda _, fun h => ?_⟩
      obtain ⟨F, hF⟩ := hframe (.inr h)
      exact Projection.oblique_scale_nonneg ⟨_, _, hF.unit h⟩ lambda _
    cosCentre_ne_zero := Projection.cosCentre_ne_zero he hp
    stretch_ne_zero := by
      intro s hs hdisc
      obtain ⟨-, -, hfitted⟩ := Projection.spheroid_of_centredAt he hp hs
      exact ⟨(hfitted hdisc).stretch_ne_zero, (hfitted hdisc).radius_pos.ne'⟩
    asin_mem := by
      intro x y hrim
      refine ⟨Projection.half_hypot_mem hrim, fun hcentre _ => ?_, fun hcentre h => ?_⟩
      · exact Projection.equatorial_sine_mem (tolerance_pos.trans hcentre) hrim
      · obtain ⟨F, hF⟩ := hframe (.inr h)
        exact Projection.oblique_sine_mem ⟨_, _, hF.unit h⟩ (tolerance_pos.trans hcentre) hrim
    newtonStep_isFinite := by
      intro v s q phi hs hfar
      obtain ⟨hflattened, hof, -⟩ := Projection.spheroid_of_centredAt he hp hs
      have hcos := Authalic.cos_pos_of_far hfar
      rw [hof.ellipsoid_eq, Guarded.newtonStep_of hflattened.pos hflattened.lt_one hcos.ne']
      exact ⟨hcos, rfl⟩ }

/-- One axis half as long as the other, and the centre on the equator. -/
theorem create_definedThroughout_half_flattened :
    ∃ op, (create (⟨⟨1, 1 / 2⟩, 0, 0, 0, 0, 1, false⟩ : Parameters ℝ)).run.value = .ok op ∧
      DefinedThroughout ⟨⟨1, 1 / 2⟩, 0, 0, 0, 0, 1, false⟩ op := by
  set P : Parameters ℝ := ⟨⟨1, 1 / 2⟩, 0, 0, 0, 0, 1, false⟩
  have hflattened : P.ellipsoid.Flattened := Ellipsoid.flattened_half
  have hvalid : P.Valid := ⟨one_pos, hflattened.pos.le, hflattened.lt_one, one_pos⟩
  have hop : (create P).run.value = .ok (ofProjection P _) :=
    create_eq_ok.mpr ⟨hvalid, _, Projection.centredAt_zero hflattened, rfl⟩
  exact ⟨_, hop, create_definedThroughout hop⟩

end Operator

end EqualArea
