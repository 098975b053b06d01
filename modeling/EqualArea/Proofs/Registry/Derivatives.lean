import EqualArea.Proofs.Jacobian.Corners
import EqualArea.Proofs.Operator.Apply
import EqualArea.Proofs.Registry.Session
import EqualArea.Proofs.Sphere.Mapping

/-!
# Derivatives of an operator

A registry estimates the derivatives of an operator from its images of the four corners of a square
around the point.

* `Registry.imageOf_of_counts`, `Registry.imageOf_of_not_counts` — the image of one coordinate.
* `Registry.jacobian_eq_ok_iff`, `Registry.jacobian_eq_error_iff` — the operators and points that
  have derivatives, and the fault of the others.
* `Registry.jacobian_next_to_antipode` — a point that has an image and no derivatives.
* `Registry.derivatives_from_corners` — what the estimates are worth, and when there are none.

**Design.**  The image of a coordinate is that of the only member of a set, so whether there is one
is read off the count.  The point itself is not among the corners and takes no part.
-/

namespace EqualArea

namespace Registry

open Jacobian (corners)
open LawfulCoordinateSet (toList)

section

variable {H α : Type} [Handle H] [Arith α] {op : Operator α} {r : Registry H α} {h : H}
  {c point : Coordinate α}

/-! ## Images -/

lemma successes_singleton (op : Operator α) (c : Coordinate α) :
    (op.apply .forward #v[c]).value.1 = (op.counts .forward c).toNat := by
  rw [Operator.successes_apply]
  change List.countP _ [c] = _
  rw [List.countP_singleton]
  cases op.counts .forward c <;> rfl

/-- The image of a coordinate that is counted is what becomes of it. -/
lemma imageOf_of_counts (hcounts : op.counts .forward c = true) :
    (imageOf op c).run.value = .ok (op.result .forward c) := by
  set out := (op.apply .forward #v[c]).value with hout
  have hcount : out.1 = 1 := by rw [hout, successes_singleton, hcounts, Bool.toNat_true]
  have hlist : out.2.toList = [op.result .forward c] := Operator.toList_apply op .forward #v[c]
  have hmember : out.2[0] = op.result .forward c := by
    rw [← Vector.getElem_toList (by simp)]
    simp [hlist]
  change (if out.1 = 1 then (pure out.2[0] : Attempt α _) else throw .outsideDomain).run.value = _
  rw [if_pos hcount, hmember]
  rfl

/-- A coordinate that is not counted has no image, for whatever reason. -/
lemma imageOf_of_not_counts (hcounts : op.counts .forward c = false) :
    (imageOf op c).run.value = .error .outsideDomain := by
  set out := (op.apply .forward #v[c]).value with hout
  have hcount : ¬out.1 = 1 := by
    rw [hout, successes_singleton, hcounts, Bool.toNat_false]
    exact zero_ne_one
  change (if out.1 = 1 then (pure out.2[0] : Attempt α _) else throw .outsideDomain).run.value = _
  rw [if_neg hcount]
  rfl

/-- A coordinate has an image exactly when it is counted. -/
lemma imageOf_eq_ok_iff (op : Operator α) (c : Coordinate α) :
    (∃ image, (imageOf op c).run.value = .ok image) ↔ op.counts .forward c = true := by
  cases hcounts : op.counts .forward c with
  | true => exact iff_of_true ⟨_, imageOf_of_counts hcounts⟩ rfl
  | false => simp [imageOf_of_not_counts hcounts]

/-! ## Derivatives -/

lemma jacobian_of_find (hfind : r.find h = .ok op) (point : Coordinate α) :
    (r.jacobian h point).run.value =
      Jacobian.estimate Jacobian.step (fun c => (imageOf op c).run.value) point := by
  rw [jacobian_value, hfind]
  exact jacobian_ofMap_value (imageOf op) point

/-- There are derivatives exactly where every corner is counted. -/
theorem jacobian_eq_ok_iff (hfind : r.find h = .ok op) :
    (∃ j, (r.jacobian h point).run.value = .ok j) ↔
      ∀ c ∈ corners Jacobian.step point, op.counts .forward c = true := by
  simp only [jacobian_of_find hfind, Jacobian.estimate_eq_ok_iff, imageOf_eq_ok_iff]

/-- Where there are none, the point is said to be outside the domain. -/
theorem jacobian_eq_error_iff (hfind : r.find h = .ok op) :
    (r.jacobian h point).run.value = .error .outsideDomain ↔
      ∃ c ∈ corners Jacobian.step point, op.counts .forward c = false := by
  -- An estimate either exists or fails at a corner, so one direction is the contrary of the case of
  -- success.
  constructor
  · intro herror
    by_contra hall
    push Not at hall
    obtain ⟨j, hj⟩ := (jacobian_eq_ok_iff hfind).mpr fun c hc =>
      Bool.not_eq_false _ |>.mp (hall c hc)
    rw [herror] at hj
    cases hj
  · rintro ⟨c, hc, hcounts⟩
    cases hvalue : (r.jacobian h point).run.value with
    | ok j =>
      have hall := (jacobian_eq_ok_iff hfind).mp ⟨j, hvalue⟩
      rw [hall c hc] at hcounts
      cases hcounts
    | error fault =>
      rw [jacobian_of_find hfind] at hvalue
      obtain ⟨-, corner, -, -, hfault, -⟩ := Jacobian.estimate_eq_error_iff.mp hvalue
      cases hcorner : op.counts .forward corner with
      | true =>
        rw [imageOf_of_counts hcorner] at hfault
        cases hfault
      | false =>
        rw [imageOf_of_not_counts hcorner] at hfault
        rw [Except.error.inj hfault]

end

/-! ## Next to the antipode -/

/-- A point of the unit sphere one step short of the south pole, on a map centred at the north pole:
it has an image, but two of the corners around it are at the south pole. -/
theorem jacobian_next_to_antipode {H : Type} [Handle H] (h : H) :
    let point : Coordinate ℝ := ⟨0, -(Real.pi / 2) + Jacobian.step⟩
    ∃ (op : Operator ℝ) (r : Registry H ℝ),
      (Operator.create ⟨⟨1, 0⟩, Real.pi / 2, 0, 0, 0, 1, false⟩).run.value = .ok op ∧
      r.find h = .ok op ∧ (op.apply .forward #v[point]).value.1 = 1 ∧
      (r.jacobian h point).run.value = .error .outsideDomain := by
  intro point
  set P : Parameters ℝ := ⟨⟨1, 0⟩, Real.pi / 2, 0, 0, 0, 1, false⟩ with hP
  set p : Projection ℝ := .ofSphere .northPolar (Real.pi / 2)
  have hpi := Real.pi_pos
  have hsphere : P.ellipsoid.eccentricitySq = 0 := zero_mul _
  have hvalid : P.Valid := ⟨one_pos, hsphere.ge, hsphere.trans_lt one_pos, one_pos⟩
  have hp : Projection.centredAt P.latitude P.ellipsoid = .ok p := by
    refine Projection.centredAt_eq_ok.mpr
      ⟨_, Aspect.ofLatitude_of_pole (abs_of_pos Real.pi_div_two_pos), ?_⟩
    rw [if_pos hsphere, if_neg Real.pi_div_two_pos.le.not_gt]
  -- A point counts unless it is nearer to the south pole than the tolerance.
  have hcounts (lambda distance : ℝ) :
      (Operator.ofProjection P p).counts .forward ⟨lambda, -(Real.pi / 2) + distance⟩ =
        !decide (|distance| < tolerance) := by
    have hopposite : -(Real.pi / 2) + distance + p.latitude = distance := by
      change -(Real.pi / 2) + distance + Real.pi / 2 = distance
      ring
    have hforward := Projection.forwardSphere_polar (p := p) (.north rfl) (lambda - P.meridian)
      (-(Real.pi / 2) + distance)
    rw [hopposite] at hforward
    by_cases hnear : |distance| < tolerance
    · rw [if_pos hnear] at hforward
      rw [decide_eq_true hnear]
      exact Operator.counts_of_error (Operator.pointMap?_toMap P p)
        (Operator.onMap_error _ _ hforward)
    · rw [if_neg hnear] at hforward
      rw [decide_eq_false hnear]
      exact Operator.counts_of_ok (Operator.pointMap?_toMap P p) (Operator.onMap_ok _ _ hforward)
  have hstep : tolerance < |(Jacobian.step : ℝ)| := by
    have hpositive : (0 : ℝ) < Jacobian.step := by
      rw [Jacobian.step, Exact.ofScientific_eq]
      norm_num
    rw [abs_of_pos hpositive, tolerance_eq, Jacobian.step, Exact.ofScientific_eq]
    norm_num
  set op := Operator.ofProjection P p
  have hfind : ((empty : Registry H ℝ).put h op).find h = .ok op := find_put_self _ _ _
  refine ⟨op, _, Operator.create_eq_ok.mpr ⟨hvalid, p, hp, rfl⟩, hfind, ?_, ?_⟩
  · rw [successes_singleton, hcounts, decide_eq_false hstep.not_gt]
    rfl
  -- The corner to the south is the pole itself.
  · refine (jacobian_eq_error_iff hfind).mpr
      ⟨⟨0 + Jacobian.step, -(Real.pi / 2) + Jacobian.step - Jacobian.step⟩, .tail _ (.head _), ?_⟩
    rw [add_sub_assoc, sub_self, hcounts, abs_zero, decide_eq_true tolerance_pos]
    rfl

/-! ## The whole -/

/-- **What derivatives from four corners are worth.**  Whatever the step, those of a map whose
components are polynomials of degree two at most are its partial derivatives.  A map that may fail
has derivatives exactly where it has a value at every corner, and otherwise the first failure, from
the north-east on in the sense of the clock, is the failure of the whole.  So the derivatives of an
operator are refused exactly where a corner has no image, whether the point has one or not. -/
theorem derivatives_from_corners :
    (∀ (p q : MvPolynomial (Fin 2) ℝ) (step : ℝ) (ε : Type) (point : Coordinate ℝ),
      p.totalDegree ≤ 2 → q.totalDegree ≤ 2 → step ≠ 0 →
      let east := fun v : ℝ × ℝ => MvPolynomial.eval ![v.1, v.2] p
      let north := fun v : ℝ × ℝ => MvPolynomial.eval ![v.1, v.2] q
      let f := fun c => (.ok ⟨east (c.first, c.second), north (c.first, c.second)⟩ :
        Except ε (Coordinate ℝ))
      ∃ j, Jacobian.estimate step f point = .ok j ∧
        HasPartials east j.eastByLongitude j.eastByLatitude (point.first, point.second) ∧
        HasPartials north j.northByLongitude j.northByLatitude (point.first, point.second)) ∧
      (∀ (α ε : Type) [Arith α] (step : α) (f : Coordinate α → Except ε (Coordinate α))
        (point : Coordinate α),
        ((∃ j, Jacobian.estimate step f point = .ok j) ↔
            ∀ c ∈ corners step point, ∃ image, f c = .ok image) ∧
          ∀ fault, Jacobian.estimate step f point = .error fault ↔
            ∃ (before : List (Coordinate α)) (corner : Coordinate α) (after : List (Coordinate α)),
              corners step point = before ++ corner :: after ∧ f corner = .error fault ∧
                ∀ c ∈ before, ∃ image, f c = .ok image) ∧
      (∀ (H α : Type) [Handle H] [Arith α] (r : Registry H α) (h : H) (op : Operator α)
        (point : Coordinate α), r.find h = .ok op →
        ((r.jacobian h point).run.value = .error .outsideDomain ↔
          ∃ c ∈ corners Jacobian.step point, (op.apply .forward #v[c]).value.1 = 0) ∧
        ((∃ j, (r.jacobian h point).run.value = .ok j) ↔
          ∀ c ∈ corners Jacobian.step point, (op.apply .forward #v[c]).value.1 = 1)) ∧
      ∀ (H : Type) [Handle H] (h : H), ∃ (P : Parameters ℝ) (op : Operator ℝ) (r : Registry H ℝ)
        (point : Coordinate ℝ),
        (Operator.create P).run.value = .ok op ∧ r.find h = .ok op ∧
          (op.apply .forward #v[point]).value.1 = 1 ∧
          (r.jacobian h point).run.value = .error .outsideDomain := by
  refine ⟨fun p q step ε point hp hq hstep => ?_, fun α ε _ step f point => ?_,
    fun H α _ _ r h op point hfind => ?_, fun H _ h => ?_⟩
  · intro east north f
    exact ⟨_, Jacobian.estimate_ok step east north point,
      Jacobian.exact_of_totalDegree_le hstep hp _, Jacobian.exact_of_totalDegree_le hstep hq _⟩
  · exact ⟨Jacobian.estimate_eq_ok_iff, fun fault => Jacobian.estimate_eq_error_iff⟩
  · simp only [jacobian_eq_error_iff hfind, jacobian_eq_ok_iff hfind, successes_singleton,
      Bool.toNat_eq_zero, Bool.toNat_eq_one, and_self]
  · obtain ⟨op, r, hop, hfind, hcount, hrefused⟩ := jacobian_next_to_antipode h
    exact ⟨_, op, r, _, hop, hfind, hcount, hrefused⟩

/-- The product of the two variables and the square of the second, at a step of a half; and an
operator with a point that has an image next to a corner that has none. -/
theorem derivatives_from_corners_of_product :
    (∃ j, Jacobian.estimate (1 / 2)
        (fun c => (.ok ⟨c.first * c.second, c.second ^ 2⟩ : Except Unit (Coordinate ℝ))) ⟨1, 2⟩ =
          .ok j ∧
      HasPartials (fun v => v.1 * v.2) j.eastByLongitude j.eastByLatitude (1, 2) ∧
      HasPartials (fun v => v.2 ^ 2) j.northByLongitude j.northByLatitude (1, 2)) ∧
    ∃ (op : Operator ℝ) (point c : Coordinate ℝ), (op.apply .forward #v[point]).value.1 = 1 ∧
      c ∈ corners Jacobian.step point ∧ (op.apply .forward #v[c]).value.1 = 0 := by
  obtain ⟨hpolynomials, -, hoperators, hrefusals⟩ := derivatives_from_corners
  constructor
  · have hproduct : (MvPolynomial.X 0 * MvPolynomial.X 1 : MvPolynomial (Fin 2) ℝ).totalDegree ≤
        2 := (MvPolynomial.totalDegree_mul _ _).trans (by simp [MvPolynomial.totalDegree_X])
    have hsquare : (MvPolynomial.X 1 ^ 2 : MvPolynomial (Fin 2) ℝ).totalDegree ≤ 2 :=
      (MvPolynomial.totalDegree_X_pow _ _).le
    simpa using hpolynomials _ _ (1 / 2) Unit ⟨1, 2⟩ hproduct hsquare one_half_pos.ne'
  · obtain ⟨-, op, r, point, -, hfind, hcount, hrefused⟩ := hrefusals (BitVec 128) 0
    obtain ⟨c, hc, hnone⟩ := (hoperators _ ℝ r 0 op point hfind).1.mp hrefused
    exact ⟨op, point, c, hcount, hc, hnone⟩

end Registry

end EqualArea
