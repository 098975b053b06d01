import EqualArea.Proofs.Authalic.Inversion
import EqualArea.Proofs.Authalic.Newton
import EqualArea.Proofs.Authalic.Rectangle
import EqualArea.Proofs.Authalic.Stretch

/-!
# Where the iteration for the geographic latitude starts

The iteration starts with the sum of the series.  On an ellipsoid that is not too flat it is close
enough to the solution for the iteration, also next to a pole.

* `arctan_le`, `le_arctan` — the arctangent between two quotients of polynomials.
* `add_le_stretch`, `stretch_le_add` — when a sum is close to a stretched latitude.
* `Authalic.sinesFrom_inverse_eq` — what the series adds, as a polynomial of the third flattening
  and the squared sine.
* `Authalic.overshoot`, `Authalic.undershoot` — what the margin leaves on either side, as
  polynomials.
* `Authalic.overshoot_positive`, `Authalic.undershoot_positive` — the computation that they are
  positive.
* `Ellipsoid.Moderate` — the ellipsoids that are not too flat.
* `Ellipsoid.Moderate.abs_start_sub_le` — the sum is close to the geographic latitude.

**Design.**  The geographic latitude lies between two stretched latitudes, and close to a stretched
latitude is a matter of an arctangent and a cosine.  With quotients of polynomials in their places
what is left to show is that a polynomial in two variables is positive, and that is computed.
-/

namespace EqualArea

/-! ## Bounds for the arctangent -/

/-- Two functions that agree at zero, and the slope of one is nowhere below that of the other. -/
lemma le_of_slope_le {f g f' g' : ℝ → ℝ} (hf : ∀ t, 0 ≤ t → HasDerivAt f (f' t) t)
    (hg : ∀ t, 0 ≤ t → HasDerivAt g (g' t) t) (hslope : ∀ t, 0 ≤ t → f' t ≤ g' t)
    (hzero : f 0 = g 0) {y : ℝ} (hy : 0 ≤ y) : f y ≤ g y := by
  have hderiv : ∀ t, 0 ≤ t → HasDerivAt (g - f) (g' t - f' t) t :=
    fun t ht => (hg t ht).sub (hf t ht)
  have hmono : MonotoneOn (g - f) (Set.Ici 0) := by
    refine monotoneOn_of_deriv_nonneg (convex_Ici 0)
      (fun t ht => (hderiv t ht).continuousAt.continuousWithinAt)
      (fun t ht => (hderiv t (interior_subset ht)).differentiableAt.differentiableWithinAt) ?_
    intro t ht
    rw [(hderiv t (interior_subset ht)).deriv, sub_nonneg]
    exact hslope t (interior_subset ht)
  have hle := hmono Set.self_mem_Ici hy hy
  simp only [Pi.sub_apply, hzero, sub_self] at hle
  linarith

lemma arctan_le {y : ℝ} (hy : 0 ≤ y) :
    Real.arctan y ≤ y * (15 + 4 * y ^ 2) / (15 + 9 * y ^ 2) := by
  have hquotient : ∀ t : ℝ, 0 ≤ t → HasDerivAt (fun t => t * (15 + 4 * t ^ 2) / (15 + 9 * t ^ 2))
      (((15 + 12 * t ^ 2) * (15 + 9 * t ^ 2) - t * (15 + 4 * t ^ 2) * (18 * t)) /
        (15 + 9 * t ^ 2) ^ 2) t := by
    intro t _
    have hnumerator := (hasDerivAt_id t).fun_mul
      (((hasDerivAt_pow 2 t).const_mul 4).const_add 15)
    have hdenominator := ((hasDerivAt_pow 2 t).const_mul 9).const_add 15
    refine (hnumerator.fun_div hdenominator (by positivity)).congr_deriv ?_
    simp only [id_eq]
    push_cast
    ring
  refine le_of_slope_le (fun t _ => Real.hasDerivAt_arctan t) hquotient (fun t _ => ?_)
    (by norm_num) hy
  rw [div_le_div_iff₀ (by positivity) (by positivity)]
  nlinarith [sq_nonneg (t ^ 3)]

lemma le_arctan {y : ℝ} (hy : 0 ≤ y) : 3 * y / (3 + y ^ 2) ≤ Real.arctan y := by
  have hquotient : ∀ t : ℝ, 0 ≤ t → HasDerivAt (fun t => 3 * t / (3 + t ^ 2))
      ((3 * (3 + t ^ 2) - 3 * t * (2 * t)) / (3 + t ^ 2) ^ 2) t := by
    intro t _
    have hdenominator := (hasDerivAt_pow 2 t).const_add 3
    refine (((hasDerivAt_id t).const_mul 3).fun_div hdenominator (by positivity)).congr_deriv ?_
    simp only [id_eq]
    push_cast
    ring
  refine le_of_slope_le hquotient (fun t _ => Real.hasDerivAt_arctan t) (fun t _ => ?_)
    (by norm_num) hy
  rw [div_le_div_iff₀ (by positivity) (by positivity)]
  nlinarith [sq_nonneg (t ^ 2)]

/-! ## A sum near a stretched latitude -/

/-- `1 - m cos 2ξ`, as a function of the squared sine. -/
def radial (m w : ℝ) : ℝ := 1 - m * (1 - w - w)

/-- `(m sin 2ξ) ^ 2`, as a function of the squared sine. -/
def transverse (m w : ℝ) : ℝ := m ^ 2 * (1 - (1 - w - w) ^ 2)

/-- How much larger than the cosine of a stretched latitude the sine of the double latitude may
be, as a function of the squared sine. -/
def envelope (m w : ℝ) : ℝ := (1 - m) ^ 2 * (1 - w) + (1 + m) ^ 2 * (w + w)

section

variable {m xi p k : ℝ} (hm : m ∈ Set.Ico (0 : ℝ) 1) (hxi : xi ∈ Set.Ico 0 (Real.pi / 2))

lemma one_sub_mul_cos_two_mul (m xi : ℝ) :
    1 - m * Real.cos (2 * xi) = radial m (Real.sin xi ^ 2) := by
  rw [Real.cos_two_mul, Real.cos_sq', radial]
  ring

lemma sq_mul_sin_two_mul (m xi : ℝ) :
    (m * Real.sin (2 * xi)) ^ 2 = transverse m (Real.sin xi ^ 2) := by
  rw [transverse, Real.sin_two_mul, mul_pow, mul_pow, mul_pow, Real.cos_sq']
  ring

include hm

lemma radial_pos (xi : ℝ) : 0 < radial m (Real.sin xi ^ 2) := by
  rw [← one_sub_mul_cos_two_mul]
  exact one_sub_mul_cos_pos hm _

lemma envelope_pos (xi : ℝ) : 0 < envelope m (Real.sin xi ^ 2) := by
  have hradicand := spread_radicand_pos hm (Real.sin xi)
  have hrest : 0 ≤ (1 + m) ^ 2 * Real.sin xi ^ 2 := by positivity
  rw [envelope, mul_add]
  linarith

omit hm in
include hxi in
lemma sin_two_mul_nonneg : 0 ≤ Real.sin (2 * xi) :=
  Real.sin_nonneg_of_nonneg_of_le_pi (by linarith [hxi.1]) (by linarith [hxi.2])

include hxi

/-- The cosine of a stretched latitude is not much smaller than the sine of the double latitude. -/
lemma sin_two_mul_le_cos_stretch :
    Real.sin (2 * xi) * ((1 - m) * (1 + m)) ≤
      envelope m (Real.sin xi ^ 2) * Real.cos (stretch m xi) := by
  have hspread := spread_pos hm (Real.sin xi)
  have hcos : 0 < Real.cos xi := Ellipsoid.cos_pos_of_mem_Ico hxi
  have hcomplement := sub_pos.mpr hm.2
  rw [cos_stretch hm, Real.sin_two_mul, ← mul_div_assoc, le_div_iff₀ hspread, envelope]
  calc 2 * Real.sin xi * Real.cos xi * ((1 - m) * (1 + m)) * spread m (Real.sin xi)
      = 2 * spread m (Real.sin xi) * ((1 + m) * Real.sin xi) * ((1 - m) * Real.cos xi) := by ring
    _ ≤ (spread m (Real.sin xi) ^ 2 + ((1 + m) * Real.sin xi) ^ 2) *
          ((1 - m) * Real.cos xi) := by
        have htwo := two_mul_le_add_sq (spread m (Real.sin xi)) ((1 + m) * Real.sin xi)
        exact mul_le_mul_of_nonneg_right htwo (by positivity)
    _ = _ := by
        rw [spread_sq hm]
        ring

/-- A multiple of the sine of the double latitude that is at most a multiple of the cosine of the
stretched latitude. -/
lemma mul_sin_two_mul_le (hk : 0 ≤ k)
    (h : envelope m (Real.sin xi ^ 2) * p ≤ k * ((1 - m) * (1 + m))) :
    p * Real.sin (2 * xi) ≤ k * Real.cos (stretch m xi) := by
  refine le_of_mul_le_mul_left ?_ (envelope_pos hm xi)
  calc envelope m (Real.sin xi ^ 2) * (p * Real.sin (2 * xi))
      = envelope m (Real.sin xi ^ 2) * p * Real.sin (2 * xi) := by ring
    _ ≤ k * ((1 - m) * (1 + m)) * Real.sin (2 * xi) :=
        mul_le_mul_of_nonneg_right h (sin_two_mul_nonneg hxi)
    _ = k * (Real.sin (2 * xi) * ((1 - m) * (1 + m))) := by ring
    _ ≤ k * (envelope m (Real.sin xi ^ 2) * Real.cos (stretch m xi)) :=
        mul_le_mul_of_nonneg_left (sin_two_mul_le_cos_stretch hm hxi) hk
    _ = envelope m (Real.sin xi ^ 2) * (k * Real.cos (stretch m xi)) := by ring

/-- How far the stretched latitude is at least. -/
lemma quotient_mul_le_stretch :
    xi + 3 * m * radial m (Real.sin xi ^ 2) /
        (3 * radial m (Real.sin xi ^ 2) ^ 2 + transverse m (Real.sin xi ^ 2)) *
          Real.sin (2 * xi) ≤ stretch m xi := by
  have hr := radial_pos hm xi
  have harctan := le_arctan (div_nonneg (mul_nonneg hm.1 (sin_two_mul_nonneg hxi))
    (one_sub_mul_cos_pos hm (2 * xi)).le)
  rw [stretch_eq]
  refine add_le_add_right (le_of_eq_of_le ?_ harctan) xi
  rw [one_sub_mul_cos_two_mul, ← sq_mul_sin_two_mul]
  field_simp

/-- How far the stretched latitude is at most. -/
lemma stretch_le_quotient_mul :
    stretch m xi ≤
      xi + m * (15 * radial m (Real.sin xi ^ 2) ^ 2 + 4 * transverse m (Real.sin xi ^ 2)) /
        (radial m (Real.sin xi ^ 2) *
          (15 * radial m (Real.sin xi ^ 2) ^ 2 + 9 * transverse m (Real.sin xi ^ 2))) *
            Real.sin (2 * xi) := by
  have hr := radial_pos hm xi
  have harctan := arctan_le (div_nonneg (mul_nonneg hm.1 (sin_two_mul_nonneg hxi))
    (one_sub_mul_cos_pos hm (2 * xi)).le)
  rw [stretch_eq]
  refine add_le_add_right (harctan.trans_eq ?_) xi
  rw [one_sub_mul_cos_two_mul, ← sq_mul_sin_two_mul]
  field_simp

/-- When a sum is past the stretched latitude by no more than a multiple of its cosine. -/
theorem add_le_stretch (hk : 0 ≤ k)
    (h : envelope m (Real.sin xi ^ 2) *
        (p * (3 * radial m (Real.sin xi ^ 2) ^ 2 + transverse m (Real.sin xi ^ 2)) -
          3 * m * radial m (Real.sin xi ^ 2)) ≤
      k * ((1 - m) * (1 + m)) *
        (3 * radial m (Real.sin xi ^ 2) ^ 2 + transverse m (Real.sin xi ^ 2))) :
    xi + p * Real.sin (2 * xi) ≤ stretch m xi + k * Real.cos (stretch m xi) := by
  have hr := radial_pos hm xi
  have hstretch := quotient_mul_le_stretch hm hxi
  have hden : 0 < 3 * radial m (Real.sin xi ^ 2) ^ 2 + transverse m (Real.sin xi ^ 2) := by
    rw [← sq_mul_sin_two_mul]
    positivity
  set num := 3 * m * radial m (Real.sin xi ^ 2)
  set den := 3 * radial m (Real.sin xi ^ 2) ^ 2 + transverse m (Real.sin xi ^ 2)
  have hrest := mul_sin_two_mul_le hm hxi (p := p - num / den) hk (by
    refine le_of_mul_le_mul_right (le_of_eq_of_le ?_ h) hden
    field_simp)
  rw [sub_mul] at hrest
  linarith

/-- When a sum is short of the stretched latitude by no more than a multiple of its cosine. -/
theorem stretch_le_add (hk : 0 ≤ k)
    (h : envelope m (Real.sin xi ^ 2) *
        (m * (15 * radial m (Real.sin xi ^ 2) ^ 2 + 4 * transverse m (Real.sin xi ^ 2)) -
          p * (radial m (Real.sin xi ^ 2) *
            (15 * radial m (Real.sin xi ^ 2) ^ 2 + 9 * transverse m (Real.sin xi ^ 2)))) ≤
      k * ((1 - m) * (1 + m)) * (radial m (Real.sin xi ^ 2) *
        (15 * radial m (Real.sin xi ^ 2) ^ 2 + 9 * transverse m (Real.sin xi ^ 2)))) :
    stretch m xi - k * Real.cos (stretch m xi) ≤ xi + p * Real.sin (2 * xi) := by
  have hr := radial_pos hm xi
  have hstretch := stretch_le_quotient_mul hm hxi
  have hden : 0 < radial m (Real.sin xi ^ 2) *
      (15 * radial m (Real.sin xi ^ 2) ^ 2 + 9 * transverse m (Real.sin xi ^ 2)) := by
    rw [← sq_mul_sin_two_mul]
    positivity
  set num := m * (15 * radial m (Real.sin xi ^ 2) ^ 2 + 4 * transverse m (Real.sin xi ^ 2))
  set den := radial m (Real.sin xi ^ 2) *
    (15 * radial m (Real.sin xi ^ 2) ^ 2 + 9 * transverse m (Real.sin xi ^ 2))
  have hrest := mul_sin_two_mul_le hm hxi (p := num / den - p) hk (by
    refine le_of_mul_le_mul_right (le_of_eq_of_le ?_ h) hden
    field_simp)
  rw [sub_mul] at hrest
  linarith

end

/-! ## The sum as a polynomial -/

namespace Jet

/-- The last two terms of Clenshaw's recurrence, for coefficients that are polynomials. -/
def clenshaw (x : List (List ℚ)) : List (List (List ℚ)) → List (List ℚ) × List (List ℚ)
  | [] => ([], [])
  | c :: rest =>
    let b := clenshaw x rest
    (add c (add (product x b.1) (scale (-1) b.2)), b.1)

/-- The recurrence for the coefficients of a table, as polynomials of the third flattening. -/
lemma value_clenshaw (n w : ℝ) (x : List (List ℚ)) (rows : List (List ℚ)) :
    Series.clenshaw (value n w x) (Series.ofTable rows n) =
      (value n w (clenshaw x (rows.map fun row => [0 :: row])).1,
        value n w (clenshaw x (rows.map fun row => [0 :: row])).2) := by
  induction rows with
  | nil => rfl
  | cons row rows ih =>
    rw [Series.ofTable_cons, Series.clenshaw_cons, ih, Series.parametric_map_cast, Exact.mulAdd_eq]
    simp only [List.map_cons, clenshaw, value_add, value_product, value_scale, value_cons,
      value_nil, Poly.value_cons, Prod.mk.injEq, and_true]
    push_cast
    ring

/-- `1 - m cos 2ξ` for a multiple `m` of the first variable. -/
def radial (c : ℚ) : List (List ℚ) := [[1, -c], [0, 2 * c]]

/-- `(m sin 2ξ) ^ 2` for a multiple `m` of the first variable. -/
def transverse (c : ℚ) : List (List ℚ) := [[], [0, 0, 4 * c ^ 2], [0, 0, -(4 * c ^ 2)]]

/-- The envelope for a multiple `m` of the first variable. -/
def envelope (c : ℚ) : List (List ℚ) := [[1, -(2 * c), c ^ 2], [1, 6 * c, c ^ 2]]

/-- `k (1 - m ^ 2)` for a multiple `m` of the first variable. -/
def margin (c k : ℚ) : List (List ℚ) := [[k, 0, -(k * c ^ 2)]]

section

variable (c k : ℚ) (n w : ℝ)

@[simp] lemma value_radial : value n w (radial c) = EqualArea.radial (c * n) w := by
  simp [radial, EqualArea.radial]
  ring

@[simp] lemma value_transverse : value n w (transverse c) = EqualArea.transverse (c * n) w := by
  simp [transverse, EqualArea.transverse]
  ring

@[simp] lemma value_envelope : value n w (envelope c) = EqualArea.envelope (c * n) w := by
  simp [envelope, EqualArea.envelope]
  ring

@[simp] lemma value_margin : value n w (margin c k) = k * ((1 - c * n) * (1 + c * n)) := by
  simp [margin]
  ring

end

end Jet

namespace Authalic

open Series

/-- What the series of the way back adds to a latitude, as a multiple of the sine of the double
latitude. -/
def startFactor : List (List ℚ) :=
  (Jet.clenshaw [[2], [-4]] (rationalTable.inverse.map fun row => [0 :: row])).1

theorem sinesFrom_inverse_eq (n xi : ℝ) :
    sinesFrom (2 * xi) 1 (coefficients n).inverse =
      Jet.value n (Real.sin xi ^ 2) startFactor * Real.sin (2 * xi) := by
  have hangle : 2 * Real.cos (2 * xi) = Jet.value n (Real.sin xi ^ 2) [[2], [-4]] := by
    rw [Real.cos_two_mul, Real.cos_sq']
    simp
    ring
  rw [← (clenshaw_mul_sin (2 * xi) _).1, inverse_eq_ofTable, hangle, Jet.value_clenshaw]
  rfl

/-- What is left of the margin when the sum is past a stretched latitude. -/
def overshoot (c k : ℚ) : List (List ℚ) :=
  let denominator := Jet.add (Jet.scale 3 (Jet.product (Jet.radial c) (Jet.radial c)))
    (Jet.transverse c)
  Jet.add (Jet.product (Jet.margin c k) denominator)
    (Jet.product (Jet.envelope c) (Jet.add (Jet.product [[0, 3 * c]] (Jet.radial c))
      (Jet.scale (-1) (Jet.product startFactor denominator))))

/-- What is left of the margin when the sum is short of a stretched latitude. -/
def undershoot (c k : ℚ) : List (List ℚ) :=
  let square := Jet.scale 15 (Jet.product (Jet.radial c) (Jet.radial c))
  let denominator := Jet.product (Jet.radial c)
    (Jet.add square (Jet.scale 9 (Jet.transverse c)))
  Jet.add (Jet.product (Jet.margin c k) denominator)
    (Jet.product (Jet.envelope c) (Jet.add (Jet.product startFactor denominator)
      (Jet.scale (-1) (Jet.product [[0, c]] (Jet.add square (Jet.scale 4 (Jet.transverse c)))))))

section

variable {c k : ℚ} {n xi : ℝ} (hm : c * n ∈ Set.Ico (0 : ℝ) 1) (hk : 0 ≤ k)
  (hxi : xi ∈ Set.Ico 0 (Real.pi / 2))

include hm hk hxi

lemma start_le_stretch (h : 0 < Jet.value n (Real.sin xi ^ 2) (overshoot c k)) :
    xi + sinesFrom (2 * xi) 1 (coefficients n).inverse ≤
      stretch (c * n) xi + k * Real.cos (stretch (c * n) xi) := by
  rw [sinesFrom_inverse_eq]
  refine add_le_stretch hm hxi (Rat.cast_nonneg.mpr hk) ?_
  simp only [overshoot, Jet.value_add, Jet.value_product, Jet.value_scale, Jet.value_margin,
    Jet.value_radial, Jet.value_transverse, Jet.value_envelope, Jet.value_cons, Jet.value_nil,
    Poly.value_cons, Poly.value_nil] at h
  push_cast at h
  linarith

lemma stretch_le_start (h : 0 < Jet.value n (Real.sin xi ^ 2) (undershoot c k)) :
    stretch (c * n) xi - k * Real.cos (stretch (c * n) xi) ≤
      xi + sinesFrom (2 * xi) 1 (coefficients n).inverse := by
  rw [sinesFrom_inverse_eq]
  refine stretch_le_add hm hxi (Rat.cast_nonneg.mpr hk) ?_
  simp only [undershoot, Jet.value_add, Jet.value_product, Jet.value_scale, Jet.value_margin,
    Jet.value_radial, Jet.value_transverse, Jet.value_envelope, Jet.value_cons, Jet.value_nil,
    Poly.value_cons, Poly.value_nil] at h
  push_cast at h
  linarith

end

/-! ## The polynomials are positive -/

/-- A latitude is its authalic latitude, stretched by at least this multiple of the third
flattening. -/
def leastStretch : ℚ := 59 / 50

/-- A latitude is its authalic latitude, stretched by at most this multiple of the third
flattening. -/
def mostStretch : ℚ := 141 / 100

/-- How far from the solution the iteration may start, as a multiple of the cosine. -/
def startMargin : ℚ := 47 / 100

/-- How the third flattenings and squared sines are cut up for the overshoot. -/
def overshootCut : Jet.Cut :=
  .outer
    (.outer (.inner .whole (.outer (.inner .whole .whole) .whole)) (.inner .whole .whole))
    (.outer .whole (.outer .whole .whole))

/-- How the third flattenings and squared sines are cut up for the undershoot. -/
def undershootCut : Jet.Cut :=
  .outer
    (.outer
      (.inner (.inner .whole .whole)
        (.outer (.inner .whole (.inner .whole .whole)) (.inner .whole .whole)))
      (.inner .whole (.outer .whole .whole)))
    (.outer (.outer .whole (.outer .whole .whole))
      (.outer .whole (.outer .whole (.inner .whole .whole))))

lemma overshoot_positive :
    Jet.positive overshootCut (9 / 20) 1 (overshoot leastStretch startMargin) := by
  decide +kernel

lemma undershoot_positive :
    Jet.positive undershootCut (9 / 20) 1 (undershoot mostStretch startMargin) := by
  decide +kernel

end Authalic

/-! ## Close to the geographic latitude -/

namespace Ellipsoid

open Series

/-- The ellipsoids on which the iteration is known to start close to its solution: those that are
converted by the closed form, with a third flattening of at most nine twentieths. -/
structure Moderate (e : Ellipsoid ℝ) : Prop where
  flattening_lt_one : e.flattening < 1
  thirdFlattening_ge : 0.01 ≤ e.thirdFlattening
  thirdFlattening_le : e.thirdFlattening ≤ 0.45

namespace Moderate

variable {e : Ellipsoid ℝ} {phi : ℝ}

lemma thirdFlattening_pos (h : e.Moderate) : 0 < e.thirdFlattening :=
  lt_of_lt_of_le (by norm_num) h.thirdFlattening_ge

lemma complement_mul (h : e.Moderate) :
    (1 - e.eccentricitySq) * (1 + e.thirdFlattening) ^ 2 = (1 - e.thirdFlattening) ^ 2 := by
  linear_combination -eccentricitySq_mul h.thirdFlattening_pos

lemma flattened (h : e.Moderate) : e.Flattened := by
  have hpos := h.thirdFlattening_pos
  have hle := h.thirdFlattening_le
  have hplus : 0 < (1 + e.thirdFlattening) ^ 2 := by positivity
  constructor
  · refine pos_of_mul_pos_left ?_ hplus.le
    rw [eccentricitySq_mul hpos]
    positivity
  · refine sub_pos.mp (pos_of_mul_pos_left ?_ hplus.le)
    rw [h.complement_mul]
    exact pow_pos (by linarith) 2

lemma le_eccentricity (h : e.Moderate) : 1e-7 ≤ e.eccentricity :=
  Ellipsoid.le_eccentricity h.flattening_lt_one h.thirdFlattening_ge

lemma usesSeries_eq_false (h : e.Moderate) : e.usesSeries = false :=
  Ellipsoid.usesSeries_eq_false h.thirdFlattening_ge

lemma mul_mem (h : e.Moderate) {c : ℝ} (hc : c ∈ Set.Icc (0 : ℝ) 2) :
    c * e.thirdFlattening ∈ Set.Ico (0 : ℝ) 1 := by
  have hpos := h.thirdFlattening_pos
  have hle := h.thirdFlattening_le
  exact ⟨mul_nonneg hc.1 hpos.le, by nlinarith [hc.1, hc.2]⟩

lemma leastStretch_mem (h : e.Moderate) :
    Authalic.leastStretch * e.thirdFlattening ∈ Set.Ico (0 : ℝ) 1 :=
  h.mul_mem (by norm_num [Authalic.leastStretch])

lemma mostStretch_mem (h : e.Moderate) :
    Authalic.mostStretch * e.thirdFlattening ∈ Set.Ico (0 : ℝ) 1 :=
  h.mul_mem (by norm_num [Authalic.mostStretch])

variable (hphi : phi ∈ Set.Ico 0 (Real.pi / 2))

include hphi

/-- The latitude is not past the larger of the two stretches. -/
lemma le_stretch (h : e.Moderate) :
    phi ≤ stretch (Authalic.mostStretch * e.thirdFlattening) (e.authalic phi) := by
  refine h.flattened.le_stretch h.le_eccentricity h.usesSeries_eq_false h.mostStretch_mem hphi ?_
  have hn0 := h.thirdFlattening_pos
  have hn1 := h.thirdFlattening_le
  have hpole := poleIntegral_mul_le h.le_eccentricity ⟨hn0, by linarith⟩
  have hcomplement := h.complement_mul
  have hm := h.mostStretch_mem
  have hc : (Authalic.mostStretch : ℝ) = 1.41 := by norm_num [Authalic.mostStretch]
  rw [hc] at hm ⊢
  set n := e.thirdFlattening
  have hfactor : 0 ≤ (1 + n) * (1 - 1.41 * n) := mul_nonneg (by linarith) (by linarith [hm.2])
  refine le_of_mul_le_mul_right ?_ (pow_pos (by linarith : 0 < 1 + n) 2)
  calc e.poleIntegral * (1 - 1.41 * n) * (1 + n) ^ 2
      = e.poleIntegral * (1 + n) * ((1 + n) * (1 - 1.41 * n)) := by ring
    _ ≤ (2 - 2 / 3 * n + 8 / 15 * n ^ 2 + 2 / 15 * n ^ 3) * ((1 + n) * (1 - 1.41 * n)) :=
        mul_le_mul_of_nonneg_right hpole hfactor
    _ ≤ 2 * (1 - n) ^ 2 * (1 + 1.41 * n) := by
        have hcubic : 0 ≤ 0.306 - 1.627 * n + 1.965 * n ^ 2 + 0.806 * n ^ 3 := by
          nlinarith [mul_nonneg (by linarith : 0 ≤ n + 0.7) (sq_nonneg (n - 0.35)),
            sq_nonneg (n - 0.338)]
        nlinarith [mul_nonneg hn0.le hcubic, pow_nonneg hn0.le 2, pow_nonneg hn0.le 3,
          pow_nonneg hn0.le 4, pow_nonneg hn0.le 5]
    _ = 2 * (1 - e.eccentricitySq) * (1 + 1.41 * n) * (1 + n) ^ 2 := by
        linear_combination -2 * (1 + 1.41 * n) * hcomplement

/-- The latitude is not short of the smaller one. -/
lemma stretch_le (h : e.Moderate) :
    stretch (Authalic.leastStretch * e.thirdFlattening) (e.authalic phi) ≤ phi := by
  refine h.flattened.stretch_le h.le_eccentricity h.usesSeries_eq_false h.leastStretch_mem hphi ?_
  have hn0 := h.thirdFlattening_pos
  have hn1 := h.thirdFlattening_le
  have hpole := poleIntegral_mul_le h.le_eccentricity ⟨hn0, by linarith⟩
  have hcomplement := h.complement_mul
  have hc : (Authalic.leastStretch : ℝ) = 1.18 := by norm_num [Authalic.leastStretch]
  rw [hc]
  set n := e.thirdFlattening
  refine le_of_mul_le_mul_right ?_ (pow_pos (by linarith : 0 < 1 + n) 3)
  calc e.poleIntegral * (1 - e.eccentricitySq) * (1 + 1.18 * n) ^ 2 * (1 + n) ^ 3
      = e.poleIntegral * (1 + n) * ((1 - n) ^ 2 * (1 + 1.18 * n) ^ 2) := by
        linear_combination e.poleIntegral * (1 + 1.18 * n) ^ 2 * (1 + n) * hcomplement
    _ ≤ (2 - 2 / 3 * n + 8 / 15 * n ^ 2 + 2 / 15 * n ^ 3) *
          ((1 - n) ^ 2 * (1 + 1.18 * n) ^ 2) :=
        mul_le_mul_of_nonneg_right hpole (by positivity)
    _ ≤ 2 * (1 - 1.18 * n) ^ 2 * (1 + n) ^ 3 := by
        have hsextic : 0 ≤ 1.22 - 1.02 * n - 4.84 * n ^ 2 + 1.75 * n ^ 3 + 4.24 * n ^ 4 -
            0.69 * n ^ 5 - 0.19 * n ^ 6 := by
          have hrest : 0 ≤ 0.45 - n := by linarith
          nlinarith [mul_nonneg hn0.le hrest, mul_nonneg (pow_nonneg hn0.le 2) hrest,
            mul_nonneg (pow_nonneg hn0.le 3) hrest, mul_nonneg (pow_nonneg hn0.le 4) hrest,
            mul_nonneg (pow_nonneg hn0.le 5) hrest]
        nlinarith [mul_nonneg hn0.le hsextic, pow_nonneg hn0.le 2, pow_nonneg hn0.le 3,
          pow_nonneg hn0.le 4, pow_nonneg hn0.le 5, pow_nonneg hn0.le 6, pow_nonneg hn0.le 7]

/-- **The iteration starts close to its solution.** -/
theorem abs_start_sub_le (h : e.Moderate) :
    |e.authalic phi + sinesFrom (2 * e.authalic phi) 1 e.authalicCoefficients.inverse - phi| ≤
      0.47 * Real.cos phi := by
  have hxi := h.flattened.authalic_mem_Ico hphi
  have hn : e.thirdFlattening ∈ Set.Icc 0 ((9 / 20 : ℚ) : ℝ) :=
    ⟨h.thirdFlattening_pos.le, h.thirdFlattening_le.trans (by norm_num)⟩
  have hw : Real.sin (e.authalic phi) ^ 2 ∈ Set.Icc 0 ((1 : ℚ) : ℝ) := by
    rw [Rat.cast_one]
    exact ⟨sq_nonneg _, Real.sin_sq_le_one _⟩
  have hmargin : 0 ≤ Authalic.startMargin := by norm_num [Authalic.startMargin]
  have hvalue : (Authalic.startMargin : ℝ) = 0.47 := by norm_num [Authalic.startMargin]
  have hover := Authalic.start_le_stretch h.leastStretch_mem hmargin hxi
    (Jet.value_pos Authalic.overshoot_positive hn hw)
  have hunder := Authalic.stretch_le_start h.mostStretch_mem hmargin hxi
    (Jet.value_pos Authalic.undershoot_positive hn hw)
  rw [hvalue] at hover hunder
  -- The cosine changes more slowly than the latitude, so adding or taking away less than the
  -- cosine keeps the order of latitudes.
  have hmost := h.le_stretch hphi
  have hleast := h.stretch_le hphi
  have hslowly {a b : ℝ} (hab : a ≤ b) : |Real.cos a - Real.cos b| ≤ b - a := by
    have hcos := Real.abs_cos_sub_cos_le a b
    rwa [abs_sub_comm a b, abs_of_nonneg (sub_nonneg.mpr hab)] at hcos
  have hfar := abs_le.mp (hslowly hmost)
  have hnear := abs_le.mp (hslowly hleast)
  change |e.authalic phi + sinesFrom (2 * e.authalic phi) 1
    (Authalic.coefficients e.thirdFlattening).inverse - phi| ≤ 0.47 * Real.cos phi
  rw [abs_le]
  constructor
  · linarith
  · linarith

end Moderate

end Ellipsoid

end EqualArea
