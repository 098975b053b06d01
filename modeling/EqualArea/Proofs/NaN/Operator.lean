import EqualArea.Proofs.NaN.Mapping
import EqualArea.Proofs.NaN.Real
import EqualArea.Proofs.Operator.Pointwise
import EqualArea.Proofs.Registry.Derivatives

/-!
# The count of an operator on what is no number

What the count of an application says about the members that are no numbers afterwards.

* `Coordinate.HasNaN` — a pair of which some element is no number.
* `Parameters.core_of_isNaN`, `Parameters.placed_nowhere` — the mapping an operator runs, and what
  it makes of an image.
* `Operator.counts_of_isNaN` — a member that is no number is counted, and stays none.
* `Operator.count_add_nan` — the count and the number of those afterwards, together.
* `Operator.apply_counts_nowhere` — the whole, for applications and for derivatives.

**Design.**  A member without an image becomes the coordinate that is nowhere and is not counted, so
each member is counted or is no number afterwards.  The two are not exclusive: how many members are
both is what the count exceeds the number of the others by.
-/

namespace EqualArea

open Arith (isNaN)
open LawfulCoordinateSet (toList)

variable {α : Type} [Arith α]

/-- Some element is no number. -/
def Coordinate.HasNaN (c : Coordinate α) : Prop := isNaN c.first ∨ isNaN c.second

instance (c : Coordinate α) : Decidable c.HasNaN :=
  inferInstanceAs (Decidable (isNaN c.first ∨ isNaN c.second))

instance (c : Coordinate α) : Decidable c.Nowhere :=
  inferInstanceAs (Decidable (isNaN c.first ∧ isNaN c.second))

lemma Coordinate.Nowhere.hasNaN {c : Coordinate α} (h : c.Nowhere) : c.HasNaN := .inl h.1

/-! ## One member -/

namespace Parameters

variable {P : Parameters α} {p : Projection α} {direction : Direction} {c d : Coordinate α}

/-- What is made of an image that is nowhere is nowhere. -/
lemma placed_nowhere [LawfulNaN α] (P : Parameters α) (direction : Direction) (h : d.Nowhere) :
    (P.placed direction d).Nowhere := by
  obtain ⟨hfirst, hsecond⟩ := h
  unfold placed
  split_ifs
  · exact ⟨by grind, by grind⟩
  · exact ⟨by simp only [Angle.wrap]; grind, hsecond⟩

variable [LawfulNaN.Elementary α]

/-- The mapping an operator runs has an image for what is no number, and it is nowhere. -/
lemma core_of_isNaN (hp : Projection.centredAt P.latitude P.ellipsoid = .ok p)
    (hsecond : isNaN c.second) (hfirst : P.runsToMap direction = true ∨ isNaN c.first) :
    MapsToNowhere (P.core p direction c) := by
  have hsome := Projection.spheroid?_isSome hp
  simp only [core]
  cases hruns : P.runsToMap direction with
  | true =>
    cases hsphere : P.ellipsoid.eccentricitySq == 0 with
    | true => exact Projection.forwardSphere_of_isNaN p _ hsecond
    | false =>
      rw [hsphere, Bool.not_false] at hsome
      obtain ⟨s, hs⟩ := Option.isSome_iff_exists.mp hsome
      exact Projection.forwardEllipsoid_of_isNaN hs _ hsecond
  | false =>
    have hx : isNaN ((c.first - P.falseEasting) / (P.ellipsoid.semimajor * P.scale)) := by grind
    have hy : isNaN ((c.second - P.falseNorthing) / (P.ellipsoid.semimajor * P.scale)) := by grind
    cases hsphere : P.ellipsoid.eccentricitySq == 0 with
    | true => exact Projection.inverseSphere_of_isNaN p hx hy
    | false =>
      rw [hsphere, Bool.not_false] at hsome
      obtain ⟨s, hs⟩ := Option.isSome_iff_exists.mp hsome
      exact Projection.inverseEllipsoid_of_isNaN hs hx hy

end Parameters

namespace Operator

variable {P : Parameters α} {p : Projection α} {op : Operator α} {direction : Direction}
  {c : Coordinate α}

/-- A member that is not counted is nowhere afterwards. -/
lemma result_nowhere_of_not_counts [LawfulNaN α]
    (hp : Projection.centredAt P.latitude P.ellipsoid = .ok p)
    (h : (ofProjection P p).counts direction c = false) :
    ((ofProjection P p).result direction c).Nowhere := by
  rw [counts_of_created hp] at h
  rw [result_of_created hp, Parameters.image]
  cases hcore : P.core p direction c with
  | ok d =>
    rw [hcore] at h
    cases h
  | error refusal => exact Coordinate.nan_nowhere

/-- **A member that is no number is counted, and is nowhere afterwards.** -/
theorem counts_of_isNaN [LawfulNaN.Elementary α]
    (hp : Projection.centredAt P.latitude P.ellipsoid = .ok p)
    (hsecond : isNaN c.second) (hfirst : P.runsToMap direction = true ∨ isNaN c.first) :
    (ofProjection P p).counts direction c = true ∧
      ((ofProjection P p).result direction c).Nowhere := by
  obtain ⟨d, hd, hnowhere⟩ := Parameters.core_of_isNaN hp hsecond hfirst
  rw [counts_of_created hp, result_of_created hp, Parameters.image, hd]
  exact ⟨rfl, P.placed_nowhere direction hnowhere⟩

/-! ## The count -/

/-- The members counted and those that are no numbers afterwards are all members, and those that are
both are in it twice. -/
lemma count_add_nan [LawfulNaN α] (hp : Projection.centredAt P.latitude P.ellipsoid = .ok p)
    (direction : Direction) (l : List (Coordinate α)) :
    let op := ofProjection P p
    l.countP (op.counts direction) +
        (l.map (op.result direction)).countP (fun c => decide c.HasNaN) =
      l.length +
        l.countP fun c => op.counts direction c && decide (op.result direction c).HasNaN := by
  intro op
  -- A member that is not counted is written back as no number, so it adds one to the other count.
  induction l with
  | nil => rfl
  | cons c l ih =>
    simp only [List.map_cons, List.countP_cons, List.length_cons]
    cases hcounts : op.counts direction c with
    | true =>
      simp only [if_true, Bool.true_and]
      omega
    | false =>
      have hnan : (op.result direction c).HasNaN := (result_nowhere_of_not_counts hp hcounts).hasNaN
      simp only [hnan, decide_true, if_true, Bool.false_and, Bool.false_eq_true, if_false]
      omega

/-! ## Derivatives -/

/-- What is no number has an image, and it is nowhere. -/
lemma imageOf_of_isNaN [LawfulNaN.Elementary α]
    (hp : Projection.centredAt P.latitude P.ellipsoid = .ok p) (hsecond : isNaN c.second)
    (hfirst : P.runsToMap .forward = true ∨ isNaN c.first) :
    ∃ image : Coordinate α, (Registry.imageOf (ofProjection P p) c).run.value = .ok image ∧
      image.Nowhere := by
  obtain ⟨hcounts, hnowhere⟩ := counts_of_isNaN hp hsecond hfirst
  exact ⟨_, Registry.imageOf_of_counts hcounts, hnowhere⟩

/-- **Derivatives at what is no number are there, and none of them is a number.** -/
theorem jacobian_of_isNaN [LawfulNaN.Elementary α]
    (hp : Projection.centredAt P.latitude P.ellipsoid = .ok p) (hsecond : isNaN c.second)
    (hfirst : P.runsToMap .forward = true ∨ isNaN c.first) :
    ∃ j, (Jacobian.ofMap (Registry.imageOf (ofProjection P p)) c).run.value = .ok j ∧
      isNaN j.eastByLongitude ∧ isNaN j.northByLatitude ∧ isNaN j.eastByLatitude ∧
      isNaN j.northByLongitude := by
  -- What is no number at the point is none at a corner either.
  obtain ⟨ne, hne, hne₁, hne₂⟩ := imageOf_of_isNaN hp
    (c := ⟨c.first + Jacobian.step, c.second + Jacobian.step⟩) (by grind) (hfirst.imp_right (by grind))
  obtain ⟨se, hse, hse₁, hse₂⟩ := imageOf_of_isNaN hp
    (c := ⟨c.first + Jacobian.step, c.second - Jacobian.step⟩) (by grind) (hfirst.imp_right (by grind))
  obtain ⟨sw, hsw, hsw₁, hsw₂⟩ := imageOf_of_isNaN hp
    (c := ⟨c.first - Jacobian.step, c.second - Jacobian.step⟩) (by grind) (hfirst.imp_right (by grind))
  obtain ⟨nw, hnw, hnw₁, hnw₂⟩ := imageOf_of_isNaN hp
    (c := ⟨c.first - Jacobian.step, c.second + Jacobian.step⟩) (by grind) (hfirst.imp_right (by grind))
  rw [Registry.jacobian_ofMap_value, Jacobian.ofMap, Jacobian.estimate]
  simp only [hne, hse, hsw, hnw]
  exact ⟨_, rfl, by grind, by grind, by grind, by grind⟩

/-! ## The whole -/

/-- **The count of an operator counts what is no number.**  The count and the number of members that
are no numbers afterwards exceed the number of members by those that are both, and among these is
every member that was nowhere before: in either direction each domain test fails for it.  For the
same reason the derivatives at such a point are given, as no numbers, and not refused. -/
theorem apply_counts_nowhere [LawfulNaN.Elementary α] (hop : (create P).run.value = .ok op) :
    (∀ {σ : Type} [CoordinateSet σ α] [LawfulCoordinateSet σ α] (direction : Direction) (s : σ),
      let out := (op.apply direction s).value
      let excess := (toList s).countP fun c =>
        op.counts direction c && decide (op.result direction c).HasNaN
      out.1 + (toList out.2).countP (fun c => decide c.HasNaN) = CoordinateSet.size s + excess ∧
        (toList s).countP (fun c => decide c.Nowhere) ≤ excess ∧
        ∀ i c, CoordinateSet.get? s i = some c → isNaN c.second →
          (P.runsToMap direction = true ∨ isNaN c.first) →
          op.counts direction c = true ∧
            ∃ d, CoordinateSet.get? out.2 i = some d ∧ d.Nowhere) ∧
      ∀ {H : Type} [Handle H] (r : Registry H α) (h : H) (point : Coordinate α),
        r.find h = .ok op → isNaN point.second →
        (P.runsToMap .forward = true ∨ isNaN point.first) →
        ∃ j, (r.jacobian h point).run.value = .ok j ∧ isNaN j.eastByLongitude ∧
          isNaN j.northByLatitude ∧ isNaN j.eastByLatitude ∧ isNaN j.northByLongitude := by
  rw [create_value] at hop
  obtain ⟨-, p, hp, rfl⟩ := ofParameters_eq_ok.mp hop
  refine ⟨fun {σ} _ _ direction s => ?_, fun {H} _ r h point hfind hsecond hfirst => ?_⟩
  · intro out excess
    refine ⟨?_, ?_, fun i c hi hsecond hfirst => ?_⟩
    · rw [toList_apply, successes_apply, LawfulCoordinateSet.size_eq]
      exact count_add_nan hp direction (toList s)
    -- A member that is nowhere is counted and comes out as no number, so it is part of the excess.
    · refine List.countP_mono_left fun c _ hc => ?_
      have hc : c.Nowhere := of_decide_eq_true hc
      obtain ⟨hcounts, hnowhere⟩ : (ofProjection P p).counts direction c = true ∧ _ :=
        counts_of_isNaN hp hc.2 (.inr hc.1)
      rw [hcounts, Bool.true_and]
      exact decide_eq_true hnowhere.hasNaN
    · obtain ⟨hcounts, hnowhere⟩ := counts_of_isNaN hp hsecond hfirst
      rw [LawfulCoordinateSet.get?_eq] at hi
      refine ⟨hcounts, _, ?_, hnowhere⟩
      rw [LawfulCoordinateSet.get?_eq, toList_apply, List.getElem?_map, hi]
      rfl
  · rw [Registry.jacobian_value, hfind]
    exact jacobian_of_isNaN hp hsecond hfirst

/-- Exact arithmetic and one value that is no number, on the unit sphere: of two points one is
nowhere, both are counted, and the derivatives where the one is are given. -/
theorem apply_counts_nowhere_on_sphere :
    let P : Parameters ℝ := ⟨⟨1, 0⟩, 0, 0, 0, 0, 1, false⟩
    let s : Array (Coordinate NaNReal) := #[⟨0, 0⟩, Coordinate.nan]
    ∃ op, (create (P.map NaNReal.of)).run.value = .ok op ∧
      op.counts .inverse Coordinate.nan = true ∧
      (∃ d, (op.apply .inverse s).value.2[1]? = some d ∧ d.Nowhere) ∧
      2 < (op.apply .inverse s).value.1 +
        ((op.apply .inverse s).value.2.toList.countP fun c => decide c.HasNaN) ∧
      let r : Registry (BitVec 128) NaNReal := Registry.empty.put 0 op
      ∃ j, (r.jacobian 0 Coordinate.nan).run.value = .ok j ∧ isNaN j.determinant := by
  intro P s
  have hsphere : P.ellipsoid.eccentricitySq = 0 := zero_mul _
  have hvalid : P.Valid := ⟨one_pos, hsphere.ge, hsphere.trans_lt one_pos, one_pos⟩
  have hreal := create_eq_ok.mpr
    ⟨hvalid, _, Projection.centredAt_eq_ok.mpr ⟨_, Aspect.ofLatitude_zero, rfl⟩, rfl⟩
  obtain ⟨op, hop⟩ := NaNReal.exists_create hreal
  obtain ⟨hnan₁, hnan₂⟩ : (Coordinate.nan : Coordinate NaNReal).Nowhere := Coordinate.nan_nowhere
  obtain ⟨happly, hjacobian⟩ := apply_counts_nowhere hop
  obtain ⟨hcount, hexcess, hmember⟩ := happly .inverse s
  obtain ⟨hcounted, hnowhere⟩ := hmember 1 Coordinate.nan rfl hnan₂ (.inr hnan₁)
  obtain ⟨j, hj, hj₁, -⟩ := hjacobian (H := BitVec 128) (Registry.empty.put 0 op) 0 Coordinate.nan
    (Registry.find_put_self _ _ _) hnan₂ (.inr hnan₁)
  refine ⟨op, hop, hcounted, hnowhere, ?_, j, hj, by simp only [Jacobian.determinant]; grind⟩
  have hone : 0 < (toList s).countP fun c => decide c.Nowhere :=
    List.countP_pos_iff.mpr ⟨Coordinate.nan, by simp [s, toList], decide_eq_true ⟨hnan₁, hnan₂⟩⟩
  have hsize : CoordinateSet.size s = 2 := rfl
  change 2 < (op.apply .inverse s).value.1 +
    (toList (op.apply .inverse s).value.2).countP fun c => decide c.HasNaN
  omega

end Operator

end EqualArea
