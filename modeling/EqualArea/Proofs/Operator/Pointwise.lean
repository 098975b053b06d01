import EqualArea.Proofs.Operator.Apply
import EqualArea.Proofs.Sphere.Mapping

/-!
# An operator acts member by member

What an operator does to a set, read off the parameters it was created from and the mappings of its
projection, for numbers of any kind and for every set that behaves like the list of its members.

* `Parameters.runsToMap` — which of its two mappings an operator runs in a direction.
* `Parameters.core`, `Parameters.placed`, `Parameters.image` — the call of the mapping of the
  projection for a coordinate, what its image becomes, and what the coordinate becomes.
* `Projection.spheroid?_isSome` — the squared eccentricity alone chooses the mappings.
* `Operator.result_of_created`, `Operator.counts_of_created` — one coordinate.
* `Operator.apply_append` — a set made of two is applied part by part, also in the log.
* `Operator.apply_pointwise` — the whole.

**Design.**  Nothing here reads the operations of the carrier.  A coordinate becomes a function of
its own value, so the order of the loop, the members before it and the kind of the set leave no
trace.
-/

namespace EqualArea

open LawfulCoordinateSet (toList)

variable {α : Type} [Arith α]

namespace Parameters

/-- Whether an operator runs its mapping to the plane in a direction: forward unless it is
inverted. -/
def runsToMap (P : Parameters α) (direction : Direction) : Bool :=
  decide (direction = .forward) != P.inverted

/-- The call of a mapping of the projection for a coordinate.  To the plane the longitude is
counted from the meridian of the centre; from the plane the false origin and the size are taken
off. -/
def core (P : Parameters α) (p : Projection α) (direction : Direction) (c : Coordinate α) :
    Except Refusal (Coordinate α) :=
  let size := P.ellipsoid.semimajor * P.scale
  let sphere := P.ellipsoid.eccentricitySq == 0
  if P.runsToMap direction then
    (if sphere then p.forwardSphere else p.forwardEllipsoid) (c.first - P.meridian) c.second
  else
    (if sphere then p.inverseSphere else p.inverseEllipsoid)
      ((c.first - P.falseEasting) / size) ((c.second - P.falseNorthing) / size)

/-- What the image of a coordinate becomes: on the plane it gets the size and the false origin, and
on the ellipsoid the meridian of the centre. -/
def placed (P : Parameters α) (direction : Direction) (d : Coordinate α) : Coordinate α :=
  let size := P.ellipsoid.semimajor * P.scale
  if P.runsToMap direction then
    ⟨size * d.first + P.falseEasting, size * d.second + P.falseNorthing⟩
  else ⟨Angle.wrap (d.first + P.meridian), d.second⟩

/-- What a coordinate becomes: without an image it is nowhere afterwards. -/
def image (P : Parameters α) (p : Projection α) (direction : Direction) (c : Coordinate α) :
    Coordinate α :=
  match P.core p direction c with
  | .ok d => P.placed direction d
  | .error _ => Coordinate.nan

end Parameters

/-- A projection has constants for the ellipsoid unless the squared eccentricity is zero. -/
lemma Projection.spheroid?_isSome {latitude : α} {e : Ellipsoid α} {p : Projection α}
    (hp : centredAt latitude e = .ok p) : p.spheroid?.isSome = !(e.eccentricitySq == 0) := by
  unfold centredAt at hp
  cases haspect : Aspect.ofLatitude latitude with
  | error fault =>
    rw [haspect] at hp
    cases hp
  | ok aspect =>
    rw [haspect] at hp
    obtain rfl := Except.ok.inj hp
    cases hsphere : e.eccentricitySq == 0 with
    | true => rfl
    | false => cases aspect <;> rfl

namespace Operator

variable {P : Parameters α} {p : Projection α} {op : Operator α}

/-- What a new operator runs is the call of its projection with the image placed. -/
lemma pointMap?_of_centredAt (hp : Projection.centredAt P.latitude P.ellipsoid = .ok p)
    (direction : Direction) :
    (ofProjection P p).pointMap? direction =
      some fun c => P.placed direction <$> P.core p direction c := by
  rw [pointMap?_ofProjection]
  refine congrArg some (funext fun c => ?_)
  have hforward : p.forward =
      if P.ellipsoid.eccentricitySq == 0 then p.forwardSphere else p.forwardEllipsoid := by
    rw [Projection.forward, Projection.spheroid?_isSome hp]
    cases P.ellipsoid.eccentricitySq == 0 <;> rfl
  have hinverse : p.inverse =
      if P.ellipsoid.eccentricitySq == 0 then p.inverseSphere else p.inverseEllipsoid := by
    rw [Projection.inverse, Projection.spheroid?_isSome hp]
    cases P.ellipsoid.eccentricitySq == 0 <;> rfl
  have hdirection : P.inverted = decide (direction = .forward) ↔ P.runsToMap direction = false := by
    unfold Parameters.runsToMap
    cases P.inverted <;> cases direction <;> decide
  simp only [Parameters.core, Parameters.placed, ← hforward, ← hinverse, map_eq_pure_bind]
  cases hruns : P.runsToMap direction with
  | true =>
    rw [if_neg (by simp [hdirection, hruns])]
    rfl
  | false =>
    rw [if_pos (hdirection.mpr hruns)]
    rfl

/-- What becomes of a coordinate is what its image becomes. -/
lemma result_of_created (hp : Projection.centredAt P.latitude P.ellipsoid = .ok p)
    (direction : Direction) (c : Coordinate α) :
    (ofProjection P p).result direction c = P.image p direction c := by
  rw [result, pointMap?_of_centredAt hp]
  simp only [CoordinateSet.replacement, Parameters.image]
  cases P.core p direction c <;> rfl

/-- A coordinate is counted when the call of the projection succeeds. -/
lemma counts_of_created (hp : Projection.centredAt P.latitude P.ellipsoid = .ok p)
    (direction : Direction) (c : Coordinate α) :
    (ofProjection P p).counts direction c = (P.core p direction c).isOk := by
  rw [counts, pointMap?_of_centredAt hp]
  simp only [CoordinateSet.hasImage]
  cases P.core p direction c <;> rfl

section

variable {σ τ υ : Type} [CoordinateSet σ α] [LawfulCoordinateSet σ α] [CoordinateSet τ α]
  [LawfulCoordinateSet τ α] [CoordinateSet υ α] [LawfulCoordinateSet υ α]

/-- The record a coordinate leaves in the log. -/
def record? (op : Operator α) (direction : Direction) (c : Coordinate α) : Option Record :=
  (op.pointMap? direction).bind fun f => (CoordinateSet.refusal? f c).bind Refusal.record?

/-- The log has the records of the members, in their order. -/
theorem log_apply (op : Operator α) (direction : Direction) (s : σ) :
    (op.apply direction s).log = (toList s).filterMap (op.record? direction) := by
  unfold apply record?
  cases op.pointMap? direction with
  | none => simp
  | some f =>
    change (CoordinateSet.transform f s).refusals.filterMap Refusal.record? = _
    rw [CoordinateSet.refusals_transform, List.filterMap_filterMap]
    rfl

/-- **A set made of two is applied part by part**, whatever the three sets are kept in. -/
theorem apply_append (op : Operator α) (direction : Direction) {s : σ} {t : τ} {u : υ}
    (hu : toList u = toList s ++ toList t) :
    toList (op.apply direction u).value.2 =
        toList (op.apply direction s).value.2 ++ toList (op.apply direction t).value.2 ∧
      (op.apply direction u).value.1 =
        (op.apply direction s).value.1 + (op.apply direction t).value.1 ∧
      (op.apply direction u).log = (op.apply direction s).log ++ (op.apply direction t).log := by
  refine ⟨?_, ?_, ?_⟩
  · rw [toList_apply, toList_apply, toList_apply, hu, List.map_append]
  · rw [successes_apply, successes_apply, successes_apply, hu, List.countP_append]
  · rw [log_apply, log_apply, log_apply, hu, List.filterMap_append]

end

/-- **Applying a created operator is a map of the members.**  In each direction, and in a set of any
size and kind, the size stays, the member at an index becomes what its own value gives, and as many
are counted as calls of the projection succeed; a set made of two is applied part by part.  The
parameters choose the mapping: that to the plane in the forward direction or, inverted, in the
other, and that of the sphere when the squared eccentricity is zero. -/
theorem apply_pointwise (hop : (create P).run.value = .ok op) :
    ∃ p, Projection.centredAt P.latitude P.ellipsoid = .ok p ∧ ∀ direction : Direction,
      (∀ {σ : Type} [CoordinateSet σ α] [LawfulCoordinateSet σ α] (s : σ),
        CoordinateSet.size (op.apply direction s).value.2 = CoordinateSet.size s ∧
        (∀ i, CoordinateSet.get? (op.apply direction s).value.2 i =
          (CoordinateSet.get? s i).map (P.image p direction)) ∧
        (op.apply direction s).value.1 =
          (toList s).countP fun c => (P.core p direction c).isOk) ∧
      ∀ {σ τ υ : Type} [CoordinateSet σ α] [LawfulCoordinateSet σ α] [CoordinateSet τ α]
        [LawfulCoordinateSet τ α] [CoordinateSet υ α] [LawfulCoordinateSet υ α]
        (s : σ) (t : τ) (u : υ), toList u = toList s ++ toList t →
        toList (op.apply direction u).value.2 =
            toList (op.apply direction s).value.2 ++ toList (op.apply direction t).value.2 ∧
          (op.apply direction u).value.1 =
            (op.apply direction s).value.1 + (op.apply direction t).value.1 ∧
          (op.apply direction u).log =
            (op.apply direction s).log ++ (op.apply direction t).log := by
  rw [create_value] at hop
  obtain ⟨-, p, hp, rfl⟩ := ofParameters_eq_ok.mp hop
  refine ⟨p, hp, fun direction => ⟨?_, fun s t u hu => apply_append _ direction hu⟩⟩
  intro σ _ _ s
  have hlist : toList ((ofProjection P p).apply direction s).value.2 =
      (toList s).map (P.image p direction) := by
    rw [toList_apply, funext (result_of_created hp direction)]
  refine ⟨?_, fun i => ?_, ?_⟩
  · rw [LawfulCoordinateSet.size_eq, LawfulCoordinateSet.size_eq, hlist, List.length_map]
  · rw [LawfulCoordinateSet.get?_eq, LawfulCoordinateSet.get?_eq, hlist, List.getElem?_map]
  · rw [successes_apply, funext (counts_of_created hp direction)]

/-- A map of the unit sphere at half its size, with a false origin: of three points the antipode of
the centre in the middle has no image, and a vector of the first with an array of the other two
gives the same count. -/
theorem apply_pointwise_around_antipode :
    ∃ op, (create (⟨⟨1, 0⟩, 0, 0, 2, 3, 1 / 2, false⟩ : Parameters ℝ)).run.value = .ok op ∧
      let east : Coordinate ℝ := ⟨Real.pi / 2, 0⟩
      let antipode : Coordinate ℝ := ⟨Real.pi, 0⟩
      let out := (op.apply .forward #[east, antipode, east]).value
      out.1 = 2 ∧ out.2[1]? = some Coordinate.nan ∧
        out.2[2]? = some ⟨1 / 2 * Real.sqrt 2 + 2, 3⟩ ∧
        out.1 = (op.apply .forward #v[east]).value.1 +
          (op.apply .forward #[antipode, east]).value.1 := by
  set P : Parameters ℝ := ⟨⟨1, 0⟩, 0, 0, 2, 3, 1 / 2, false⟩
  have hsphere : P.ellipsoid.eccentricitySq = 0 := zero_mul _
  have hvalid : P.Valid :=
    ⟨one_pos, hsphere.ge, hsphere.trans_lt one_pos, by change (0 : ℝ) < 1 / 2; norm_num⟩
  have hcentred : Projection.centredAt P.latitude P.ellipsoid =
      .ok (Projection.ofSphere .equatorial 0) :=
    Projection.centredAt_eq_ok.mpr ⟨_, Aspect.ofLatitude_zero, by rw [if_pos hsphere]⟩
  have hop := create_eq_ok.mpr ⟨hvalid, _, hcentred, rfl⟩
  refine ⟨_, hop, ?_⟩
  intro east antipode out
  obtain ⟨p, hp, hpointwise⟩ := apply_pointwise hop
  obtain rfl : Projection.ofSphere .equatorial 0 = p := Except.ok.inj (hcentred.symm.trans hp)
  obtain ⟨hmembers, happend⟩ := hpointwise .forward
  obtain ⟨-, hmember, hcount⟩ := hmembers #[east, antipode, east]
  have hF : (Projection.ofSphere .equatorial (0 : ℝ)).HasFrame Frame.equator := .equatorial rfl
  have hcore (c : Coordinate ℝ) : P.core (Projection.ofSphere .equatorial 0) .forward c =
      (Projection.ofSphere .equatorial 0).forwardSphere c.first c.second := by
    have hnumber : (P.ellipsoid.eccentricitySq == 0) = true := Exact.beq_iff.mpr hsphere
    have hlambda : c.first - P.meridian = c.first := sub_zero c.first
    simp only [Parameters.core, hnumber, if_true, hlambda]
    rfl
  have heast : P.core (Projection.ofSphere .equatorial 0) .forward east =
      .ok ⟨Real.sqrt 2, 0⟩ := by
    rw [hcore, Projection.forwardSphere_quarter_turn hF]
  have hantipode : P.core (Projection.ofSphere .equatorial 0) .forward antipode =
      .error .beyondAntipode := by
    have hup : (Frame.equator.sight Real.pi 0).up = -1 := by simp [Frame.equator, Frame.sight]
    rw [hcore, Projection.forwardSphere_of_frame hF, hup, if_pos (by linarith [tolerance_pos])]
  refine ⟨?_, ?_, ?_, (happend #v[east] #[antipode, east] #[east, antipode, east] rfl).2.1⟩
  · refine hcount.trans ?_
    change List.countP _ [east, antipode, east] = 2
    simp only [List.countP_cons, List.countP_nil, heast, hantipode]
    rfl
  · refine (hmember 1).trans (congrArg some ?_)
    change Parameters.image P _ .forward antipode = _
    simp only [Parameters.image, hantipode]
  · refine (hmember 2).trans (congrArg some ?_)
    change Parameters.image P _ .forward east = _
    simp only [Parameters.image, heast]
    ext
    · change 1 * (1 / 2) * Real.sqrt 2 + 2 = 1 / 2 * Real.sqrt 2 + 2
      rw [one_mul]
    · change 1 * (1 / 2) * (0 : ℝ) + 3 = 3
      norm_num

end Operator

end EqualArea
