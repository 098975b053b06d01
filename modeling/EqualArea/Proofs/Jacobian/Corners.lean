import EqualArea.Jacobian
import EqualArea.Proofs.Area.Scale

/-!
# Derivatives from four corners

The estimate of a Jacobian asks for the values of a map at the four corners of a square around the
point.

* `Jacobian.corners` — the corners, in the order in which they are asked for.
* `Jacobian.estimate_eq_ok_iff`, `Jacobian.estimate_eq_error_iff` — when there is an estimate, and
  why there is none.
* `Jacobian.byFirst`, `Jacobian.bySecond` — the differences over the four corners, by one variable
  and by the other; by `Jacobian.estimate_ok` an estimate consists of them.
* `Jacobian.Exact` — the differences of a function are its partial derivatives, wherever the square
  lies.
* `Jacobian.exact_of_totalDegree_le` — so it is with every polynomial of degree two at most.

**Design.**  The differences are linear in the function, so those of a polynomial are known from
those of its monomials, and there are six monomials of degree two at most.  The failures are stated
for maps and numbers of any kind, since no number takes part in them.
-/

namespace EqualArea

namespace Jacobian

/-! ## Failures -/

section

variable {α ε : Type} [Arith α] {step : α} {f : Coordinate α → Except ε (Coordinate α)}
  {point : Coordinate α}

/-- The corners of the square around a point: north-east, south-east, south-west, north-west. -/
def corners (step : α) (point : Coordinate α) : List (Coordinate α) :=
  [⟨point.first + step, point.second + step⟩, ⟨point.first + step, point.second - step⟩,
    ⟨point.first - step, point.second - step⟩, ⟨point.first - step, point.second + step⟩]

omit [Arith α] in
/-- Why a map has no value at a point, unless it has one. -/
def failure? (f : Coordinate α → Except ε (Coordinate α)) (c : Coordinate α) : Option ε :=
  match f c with
  | .ok _ => none
  | .error fault => some fault

omit [Arith α] in
lemma failure?_eq_none {c : Coordinate α} : failure? f c = none ↔ ∃ image, f c = .ok image := by
  cases h : f c <;> simp [failure?, h]

omit [Arith α] in
lemma failure?_eq_some {c : Coordinate α} {fault : ε} :
    failure? f c = some fault ↔ f c = .error fault := by
  cases h : f c <;> simp [failure?, h]

/-- The first failure in the order of the corners decides, one corner after the other. -/
lemma estimate_failure (step : α) (f : Coordinate α → Except ε (Coordinate α))
    (point : Coordinate α) :
    match (corners step point).findSome? (failure? f) with
    | some fault => estimate step f point = .error fault
    | none => ∃ j, estimate step f point = .ok j := by
  simp only [estimate, corners, List.findSome?_cons, List.findSome?_nil, failure?]
  cases f ⟨point.first + step, point.second + step⟩ with
  | error fault => rfl
  | ok ne =>
    cases f ⟨point.first + step, point.second - step⟩ with
    | error fault => rfl
    | ok se =>
      cases f ⟨point.first - step, point.second - step⟩ with
      | error fault => rfl
      | ok sw =>
        cases f ⟨point.first - step, point.second + step⟩ with
        | error fault => rfl
        | ok nw => exact ⟨_, rfl⟩

/-- There is an estimate exactly when the map has a value at every corner. -/
theorem estimate_eq_ok_iff :
    (∃ j, estimate step f point = .ok j) ↔
      ∀ c ∈ corners step point, ∃ image, f c = .ok image := by
  have hvalues : (∀ c ∈ corners step point, ∃ image, f c = .ok image) ↔
      (corners step point).findSome? (failure? f) = none := by
    simp only [List.findSome?_eq_none_iff, failure?_eq_none]
  have hestimate := estimate_failure step f point
  rw [hvalues]
  cases hfirst : (corners step point).findSome? (failure? f) with
  | none =>
    rw [hfirst] at hestimate
    exact iff_of_true hestimate rfl
  | some fault =>
    rw [hfirst] at hestimate
    rw [hestimate]
    simp

/-- There is none exactly when the map has no value at some corner, and the first one says why. -/
theorem estimate_eq_error_iff {fault : ε} :
    estimate step f point = .error fault ↔
      ∃ before corner after, corners step point = before ++ corner :: after ∧
        f corner = .error fault ∧ ∀ c ∈ before, ∃ image, f c = .ok image := by
  have hfailure : (∃ before corner after, corners step point = before ++ corner :: after ∧
      f corner = .error fault ∧ ∀ c ∈ before, ∃ image, f c = .ok image) ↔
        (corners step point).findSome? (failure? f) = some fault := by
    simp only [List.findSome?_eq_some_iff, failure?_eq_none, failure?_eq_some]
  have hestimate := estimate_failure step f point
  rw [hfailure]
  cases hfirst : (corners step point).findSome? (failure? f) with
  | none =>
    rw [hfirst] at hestimate
    obtain ⟨j, hj⟩ := hestimate
    simp [hj]
  | some first =>
    rw [hfirst] at hestimate
    rw [hestimate]
    simp

end

/-! ## Differences -/

variable {step : ℝ} {g h : ℝ × ℝ → ℝ}

/-- The difference of a function over the four corners by its first variable. -/
noncomputable def byFirst (step : ℝ) (g : ℝ × ℝ → ℝ) (v : ℝ × ℝ) : ℝ :=
  (g (v.1 + step, v.2 + step) + g (v.1 + step, v.2 - step) - g (v.1 - step, v.2 - step) -
    g (v.1 - step, v.2 + step)) / ((4 : ℕ) * step)

/-- The difference of a function over the four corners by its second variable. -/
noncomputable def bySecond (step : ℝ) (g : ℝ × ℝ → ℝ) (v : ℝ × ℝ) : ℝ :=
  (g (v.1 + step, v.2 + step) - g (v.1 + step, v.2 - step) - g (v.1 - step, v.2 - step) +
    g (v.1 - step, v.2 + step)) / ((4 : ℕ) * step)

/-- The estimate for a map that has a value everywhere. -/
lemma estimate_ok {ε : Type} (step : ℝ) (east north : ℝ × ℝ → ℝ) (point : Coordinate ℝ) :
    estimate step (fun c => (.ok ⟨east (c.first, c.second), north (c.first, c.second)⟩ :
        Except ε (Coordinate ℝ))) point =
      .ok ⟨byFirst step east (point.first, point.second),
        bySecond step north (point.first, point.second),
        bySecond step east (point.first, point.second),
        byFirst step north (point.first, point.second)⟩ := by
  have hzero (x : ℝ) : @OfNat.ofNat ℝ 0 (Arith.instOfNat 0) + x = x := zero_add x
  simp only [estimate, hzero]
  rfl

/-- The differences of a function are its partial derivatives, at every point. -/
def Exact (step : ℝ) (g : ℝ × ℝ → ℝ) : Prop :=
  ∀ v, HasPartials g (byFirst step g v) (bySecond step g v) v

lemma Exact.add (hg : Exact step g) (hh : Exact step h) : Exact step fun v => g v + h v := by
  intro v
  refine ((hg v).add (hh v)).congr_partials ?_ ?_
  · simp only [byFirst]
    ring
  · simp only [bySecond]
    ring

lemma Exact.zero (step : ℝ) : Exact step fun _ => 0 := by
  intro v
  refine (HasPartials.const 0 v).congr_partials ?_ ?_ <;> simp [byFirst, bySecond]

/-- There are six monomials of degree two at most. -/
lemma exact_monomial (hstep : step ≠ 0) (a : ℝ) {i j : ℕ} (hdegree : i + j ≤ 2) :
    Exact step fun v => a * (v.1 ^ i * v.2 ^ j) := by
  intro v
  have hfirst := HasPartials.of_fst (hasDerivAt_pow i v.1)
  have hsecond := HasPartials.of_snd (hasDerivAt_pow j v.2)
  refine ((HasPartials.const a v).mul (hfirst.mul hsecond)).congr_partials ?_ ?_
  · have hi : i ≤ 2 := by omega
    have hj : j ≤ 2 - i := by omega
    simp only [byFirst]
    interval_cases i <;> interval_cases j <;> norm_num <;> field_simp <;> ring
  · have hi : i ≤ 2 := by omega
    have hj : j ≤ 2 - i := by omega
    simp only [bySecond]
    interval_cases i <;> interval_cases j <;> norm_num <;> field_simp <;> ring

/-! ## Polynomials -/

/-- A polynomial in two variables, as a function of a pair. -/
noncomputable def ofPolynomial (p : MvPolynomial (Fin 2) ℝ) (v : ℝ × ℝ) : ℝ :=
  MvPolynomial.eval ![v.1, v.2] p

/-- A polynomial is the sum of its monomials. -/
lemma ofPolynomial_eq_sum (p : MvPolynomial (Fin 2) ℝ) (v : ℝ × ℝ) :
    ofPolynomial p v = ∑ d ∈ p.support, p.coeff d * (v.1 ^ d 0 * v.2 ^ d 1) := by
  simp [ofPolynomial, MvPolynomial.eval_eq', Fin.prod_univ_two]

/-- **The differences of a polynomial of degree two at most are its derivatives.** -/
theorem exact_of_totalDegree_le (hstep : step ≠ 0) {p : MvPolynomial (Fin 2) ℝ}
    (hdegree : p.totalDegree ≤ 2) : Exact step (ofPolynomial p) := by
  have hmonomial (d : Fin 2 →₀ ℕ) (hd : d ∈ p.support) :
      Exact step fun v => p.coeff d * (v.1 ^ d 0 * v.2 ^ d 1) := by
    refine exact_monomial hstep _ ((MvPolynomial.le_totalDegree hd).trans hdegree |>.trans' ?_)
    rw [Finsupp.sum_fintype _ _ (fun _ => rfl), Fin.sum_univ_two]
  have hsum (s : Finset (Fin 2 →₀ ℕ)) (hs : s ⊆ p.support) :
      Exact step fun v => ∑ d ∈ s, p.coeff d * (v.1 ^ d 0 * v.2 ^ d 1) := by
    induction s using Finset.induction_on with
    | empty => exact Exact.zero step
    | insert d s hd ih =>
      simp only [Finset.sum_insert hd]
      exact (hmonomial d (hs (Finset.mem_insert_self d s))).add
        (ih fun _ hmem => hs (Finset.mem_insert_of_mem hmem))
  rw [funext (ofPolynomial_eq_sum p)]
  exact hsum p.support subset_rfl

end Jacobian

end EqualArea
