import EqualArea.Proofs.Authalic.Jet

/-!
# Polynomials in two variables on a rectangle

Whether a polynomial in two variables, with rational coefficients, is positive wherever the
variables are between zero and given bounds.

* `Jet.product` — the product, with nothing cut off.
* `Poly.floor`, `Jet.floor` — a bound from below, by Horner's scheme.
* `Poly.shift`, `Jet.shift` — the polynomial as seen from another corner.
* `Jet.positive`, `Jet.value_pos` — the bound, on every piece of a rectangle that is cut up.

**Design.**  Polynomials in two variables are written as power series are, in powers of one variable
whose coefficients are polynomials of the other.  The bound is taken at the corner where both
variables are zero, so the lower half of a rectangle has the polynomial of the whole, and only for
the upper half a new one is computed.  How a rectangle is cut up is given, and nothing has to be
known about how it was found.
-/

namespace EqualArea

/-! ## One variable -/

namespace Poly

/-- The polynomial with a number added to its variable. -/
def shift (c : ℚ) : List ℚ → List ℚ
  | [] => []
  | a :: p => add [a] (add ((shift c p).map (c * ·)) (0 :: shift c p))

lemma value_shift {K : Type*} [Field K] [CharZero K] (z : K) (c : ℚ) (p : List ℚ) :
    value z (shift c p) = value (z + c) p := by
  induction p with
  | nil => rfl
  | cons a p ih =>
    simp only [shift, value_add, value_map_mul, value_cons, value_nil, ih, Rat.cast_zero]
    ring

/-- A bound for the polynomial from below, where its variable is between zero and `h`. -/
def floor (h : ℚ) : List ℚ → ℚ
  | [] => 0
  | a :: p => a + min 0 (h * floor h p)

/-- A number between zero and a bound, times one that has a lower bound. -/
lemma min_le_mul {x y h b : ℝ} (hx : x ∈ Set.Icc 0 h) (hy : b ≤ y) : min 0 (h * b) ≤ x * y := by
  rcases le_total 0 b with hb | hb
  · exact (min_le_left _ _).trans (mul_nonneg hx.1 (hb.trans hy))
  · calc min 0 (h * b) ≤ h * b := min_le_right _ _
      _ ≤ x * b := mul_le_mul_of_nonpos_right hx.2 hb
      _ ≤ x * y := mul_le_mul_of_nonneg_left hy hx.1

lemma floor_le {z : ℝ} {h : ℚ} (hz : z ∈ Set.Icc 0 (h : ℝ)) (p : List ℚ) :
    (floor h p : ℝ) ≤ value z p := by
  induction p with
  | nil => simp [floor]
  | cons a p ih =>
    have hrest := min_le_mul hz ih
    rw [floor, value_cons]
    push_cast
    linarith

end Poly

/-! ## Two variables -/

namespace Jet

/-- The product of two polynomials in two variables. -/
def product : List (List ℚ) → List (List ℚ) → List (List ℚ)
  | [], _ => []
  | p :: s, r => add (r.map (Poly.mul p)) ([] :: product s r)

/-- The polynomial with a number added to the variable in whose powers it is written. -/
def shift (c : ℚ) : List (List ℚ) → List (List ℚ)
  | [] => []
  | p :: s => add [p] (add (scale c (shift c s)) ([] :: shift c s))

section

variable {K : Type*} [Field K] [CharZero K] (z t : K)

@[simp] lemma value_product (s r : List (List ℚ)) :
    value z t (product s r) = value z t s * value z t r := by
  induction s with
  | nil => simp [product]
  | cons p s ih =>
    rw [product, value_add, value_map z t (Poly.value_mul z p), value_cons, value_cons,
      Poly.value_nil, ih]
    ring

lemma value_shift (c : ℚ) (s : List (List ℚ)) : value z t (shift c s) = value z (t + c) s := by
  induction s with
  | nil => rfl
  | cons p s ih =>
    simp only [shift, value_add, value_scale, value_cons, value_nil, ih, Poly.value_nil]
    ring

lemma value_map_shift (c : ℚ) (s : List (List ℚ)) :
    value z t (s.map (Poly.shift c)) = value (z + c) t s := by
  induction s with
  | nil => rfl
  | cons p s ih => rw [List.map_cons, value_cons, value_cons, Poly.value_shift, ih]

end

/-- A bound for the polynomial from below, where the variables are between zero and `h`, and zero
and `k`. -/
def floor (h k : ℚ) : List (List ℚ) → ℚ
  | [] => 0
  | p :: s => Poly.floor h p + min 0 (k * floor h k s)

lemma floor_le {z t : ℝ} {h k : ℚ} (hz : z ∈ Set.Icc 0 (h : ℝ)) (ht : t ∈ Set.Icc 0 (k : ℝ))
    (s : List (List ℚ)) : (floor h k s : ℝ) ≤ value z t s := by
  induction s with
  | nil => simp [floor]
  | cons p s ih =>
    have hhead := Poly.floor_le hz p
    have hrest := Poly.min_le_mul ht ih
    rw [floor, value_cons]
    push_cast
    linarith

/-! ## Cutting up a rectangle -/

/-- How a rectangle is cut up, by halving either side. -/
inductive Cut
  | whole
  | inner (low high : Cut)
  | outer (low high : Cut)

/-- Whether the bound is positive on every piece. -/
def positive : Cut → ℚ → ℚ → List (List ℚ) → Bool
  | .whole, h, k, s => decide (0 < floor h k s)
  | .inner low high, h, k, s =>
    positive low (h / 2) k s && positive high (h / 2) k (s.map (Poly.shift (h / 2)))
  | .outer low high, h, k, s =>
    positive low h (k / 2) s && positive high h (k / 2) (shift (k / 2) s)

/-- A number between zero and a bound is in the lower half, or in the upper half when half the bound
is taken away. -/
lemma mem_half_or {x : ℝ} {h : ℚ} (hx : x ∈ Set.Icc 0 (h : ℝ)) :
    x ∈ Set.Icc 0 ((h / 2 : ℚ) : ℝ) ∨ x - (h / 2 : ℚ) ∈ Set.Icc 0 ((h / 2 : ℚ) : ℝ) := by
  obtain ⟨hlow, hhigh⟩ := hx
  push_cast
  rcases le_total x (h / 2) with hle | hle
  · exact .inl ⟨hlow, hle⟩
  · exact .inr ⟨by linarith, by linarith⟩

/-- **A polynomial with a positive bound on every piece is positive.** -/
theorem value_pos {z t : ℝ} {cut : Cut} {h k : ℚ} {s : List (List ℚ)}
    (hs : positive cut h k s) (hz : z ∈ Set.Icc 0 (h : ℝ)) (ht : t ∈ Set.Icc 0 (k : ℝ)) :
    0 < value z t s := by
  induction cut generalizing z t h k s with
  | whole =>
    have hpos : 0 < floor h k s := of_decide_eq_true hs
    exact lt_of_lt_of_le (Rat.cast_pos.mpr hpos) (floor_le hz ht s)
  | inner low high ihLow ihHigh =>
    rw [positive, Bool.and_eq_true] at hs
    rcases mem_half_or hz with hmem | hmem
    · exact ihLow hs.1 hmem ht
    · have hvalue := ihHigh hs.2 hmem ht
      rwa [value_map_shift, sub_add_cancel] at hvalue
  | outer low high ihLow ihHigh =>
    rw [positive, Bool.and_eq_true] at hs
    rcases mem_half_or ht with hmem | hmem
    · exact ihLow hs.1 hz hmem
    · have hvalue := ihHigh hs.2 hz hmem
      rwa [value_shift, sub_add_cancel] at hvalue

end Jet

end EqualArea
