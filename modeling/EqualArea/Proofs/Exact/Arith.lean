import EqualArea.Arith
import Mathlib

/-!
# The arithmetic of the real numbers

The carrier at which the formulas are read as exact real arithmetic.

* `Exact.atan2`, `Exact.hypot`, `Exact.rem`, `Exact.signum` — the operations that have no name of
  their own among the real functions.
* the instance of `Arith` at the real numbers.
* `atan2_mul_sin_mul_cos`, `mul_sin_atan2`, `mul_cos_atan2` — polar coordinates and back.
* `clamp_mem`, `clamp_neg`, `artanh_neg` — values kept in an interval, and odd functions.
* `hypot_sq`, `hypot_mul` — lengths.

**Design.**  Every operation, every numeral and every decimal literal of the instance is by
definition the one of the real numbers, so a formula of the library at this carrier and the same
formula written over the reals are equal by `rfl`.  The real numbers hold no value that is no
number and none beyond every number; zero stands in for both, every value counts as finite, and no
statement reads the stand-in.  Zero has no sign of its own and passes on the positive one.
-/

namespace EqualArea

namespace Exact

/-- The angle of the point with ordinate `y` and abscissa `x`, in `(-π, π]`. -/
noncomputable def atan2 (y x : ℝ) : ℝ := Complex.arg ⟨x, y⟩

/-- The length of the hypotenuse over two legs. -/
noncomputable def hypot (x y : ℝ) : ℝ := Real.sqrt (x ^ 2 + y ^ 2)

/-- The remainder of the division whose quotient is truncated toward zero. -/
noncomputable def rem (x y : ℝ) : ℝ :=
  x - y * (if 0 ≤ x / y then (⌊x / y⌋ : ℝ) else (⌈x / y⌉ : ℝ))

/-- One with the sign of the argument. -/
noncomputable def signum (x : ℝ) : ℝ := if x < 0 then -1 else 1

end Exact

noncomputable instance : Arith ℝ where
  decidableLT := inferInstance
  decidableLE := inferInstance
  beq x y := decide (x = y)
  ofNat
    | 0 => 0
    | 1 => 1
    | n + 2 => OfNat.ofNat (n + 2)
  ofDecimal
    | m, .ofNat k => OfScientific.ofScientific m false k
    | m, .negSucc k => OfScientific.ofScientific m true (k + 1)
  abs x := |x|
  mulAdd x y z := x * y + z
  signum := Exact.signum
  rem := Exact.rem
  sqrt := Real.sqrt
  pow x y := x ^ y
  log := Real.log
  sin := Real.sin
  cos := Real.cos
  asin := Real.arcsin
  atanh := Real.artanh
  atan2 := Exact.atan2
  hypot := Exact.hypot
  pi := Real.pi
  nan := 0
  infinity := 0
  isFinite _ := true

-- Division and numerals at the real numbers are found through the field, in whatever order the
-- modules are imported.
attribute [instance (10)] Arith.toDiv Arith.instOfNat Arith.instOfScientific

namespace Exact

/-! ## The operations of the instance -/

@[simp] lemma beq_iff {x y : ℝ} : @BEq.beq ℝ Arith.toBEq x y = true ↔ x = y := decide_eq_true_iff

@[simp] lemma isNaN_eq (x : ℝ) : Arith.isNaN x = false := by simp [Arith.isNaN]

@[simp] lemma isFinite_eq (x : ℝ) : Arith.isFinite x = true := rfl

lemma quarterTurn_eq : (Arith.quarterTurn : ℝ) = Real.pi / 2 := rfl

/-- A decimal literal of the library is the real number it denotes. -/
@[simp] lemma ofScientific_eq (m : ℕ) (negative : Bool) (e : ℕ) :
    @OfScientific.ofScientific ℝ Arith.instOfScientific m negative e =
      OfScientific.ofScientific m negative e := by
  cases negative with
  | false => rfl
  | true =>
    cases e with
    | zero =>
      change (OfScientific.ofScientific m false 0 : ℝ) = OfScientific.ofScientific m true 0
      simp [NNRatCast.ofScientific_eq_ite]
    | succ e => rfl

@[simp] lemma abs_eq (x : ℝ) : Arith.abs x = |x| := rfl

@[simp] lemma mulAdd_eq (x y z : ℝ) : Arith.mulAdd x y z = x * y + z := rfl

@[simp] lemma sqrt_eq (x : ℝ) : Arith.sqrt x = Real.sqrt x := rfl

@[simp] lemma sin_eq (x : ℝ) : Arith.sin x = Real.sin x := rfl

@[simp] lemma cos_eq (x : ℝ) : Arith.cos x = Real.cos x := rfl

@[simp] lemma asin_eq (x : ℝ) : Arith.asin x = Real.arcsin x := rfl

@[simp] lemma atanh_eq (x : ℝ) : Arith.atanh x = Real.artanh x := rfl

@[simp] lemma hypot_eq (x y : ℝ) : Arith.hypot x y = hypot x y := rfl

@[simp] lemma atan2_eq (y x : ℝ) : Arith.atan2 y x = atan2 y x := rfl

@[simp] lemma pi_eq : (Arith.pi : ℝ) = Real.pi := rfl

/-- Clamping to an interval leaves the interval alone. -/
lemma clamp_of_mem {lo hi x : ℝ} (h : x ∈ Set.Icc lo hi) : Arith.clamp lo hi x = x := by
  have hlo : ¬x < lo := not_lt.mpr h.1
  have hhi : ¬hi < x := not_lt.mpr h.2
  exact (if_neg hlo).trans (if_neg hhi)

lemma clamp_mem {lo hi : ℝ} (h : lo ≤ hi) (x : ℝ) : Arith.clamp lo hi x ∈ Set.Icc lo hi := by
  by_cases hlo : x < lo
  · rw [show Arith.clamp lo hi x = lo from if_pos hlo]
    exact Set.left_mem_Icc.mpr h
  · by_cases hhi : hi < x
    · rw [show Arith.clamp lo hi x = hi from (if_neg hlo).trans (if_pos hhi)]
      exact Set.right_mem_Icc.mpr h
    · have hx : x ∈ Set.Icc lo hi := ⟨not_lt.mp hlo, not_lt.mp hhi⟩
      rwa [clamp_of_mem hx]

/-- Clamping to an interval around zero changes its sign with the value. -/
lemma clamp_neg {hi : ℝ} (h : 0 ≤ hi) (x : ℝ) :
    Arith.clamp (-hi) hi (-x) = -Arith.clamp (-hi) hi x := by
  change (if -x < -hi then -hi else if hi < -x then hi else -x) =
    -(if x < -hi then -hi else if hi < x then hi else x)
  split_ifs <;> linarith

/-- The inverse hyperbolic tangent is odd, also where it is not that of a number. -/
lemma artanh_neg (x : ℝ) : Real.artanh (-x) = -Real.artanh x := by
  have hinv : (1 + -x) / (1 - -x) = ((1 + x) / (1 - x))⁻¹ := by
    rw [inv_div]
    ring
  rw [Real.artanh, Real.artanh, hinv, Real.sqrt_inv, Real.log_inv]

/-! ## Lengths -/

lemma hypot_nonneg (x y : ℝ) : 0 ≤ hypot x y := Real.sqrt_nonneg _

lemma hypot_sq (x y : ℝ) : hypot x y ^ 2 = x ^ 2 + y ^ 2 := Real.sq_sqrt (by positivity)

lemma hypot_of_sq {x y r : ℝ} (hr : 0 ≤ r) (h : x ^ 2 + y ^ 2 = r ^ 2) : hypot x y = r := by
  rw [hypot, h, Real.sqrt_sq hr]

/-- The length of a multiple. -/
lemma hypot_mul {r : ℝ} (hr : 0 ≤ r) (x y : ℝ) : hypot (r * x) (r * y) = r * hypot x y := by
  apply hypot_of_sq (mul_nonneg hr (hypot_nonneg x y))
  rw [mul_pow r (hypot x y), hypot_sq]
  ring

lemma hypot_neg_right (x y : ℝ) : hypot x (-y) = hypot x y := by rw [hypot, neg_sq, hypot]

lemma hypot_zero_right {x : ℝ} (hx : 0 ≤ x) : hypot x 0 = x := hypot_of_sq hx (by ring)

/-! ## Angles -/

/-- The angle of a point given by its angle and a positive distance. -/
lemma atan2_mul_sin_mul_cos {r theta : ℝ} (hr : 0 < r)
    (h : theta ∈ Set.Ioc (-Real.pi) Real.pi) :
    atan2 (r * Real.sin theta) (r * Real.cos theta) = theta := by
  have hpoint : (⟨r * Real.cos theta, r * Real.sin theta⟩ : ℂ) =
      r * (Complex.cos theta + Complex.sin theta * Complex.I) := by
    apply Complex.ext <;> simp [Complex.cos_ofReal_re, Complex.sin_ofReal_re]
  rw [atan2, hpoint, Complex.arg_mul_cos_add_sin_mul_I hr h]

/-- A positive factor does not change the angle of a point. -/
lemma atan2_mul {r : ℝ} (hr : 0 < r) (y x : ℝ) : atan2 (r * y) (r * x) = atan2 y x := by
  have hpoint : (⟨r * x, r * y⟩ : ℂ) = r * ⟨x, y⟩ := by apply Complex.ext <;> simp
  rw [atan2, hpoint, Complex.arg_real_mul _ hr, atan2]

lemma mul_sin_atan2 (y x : ℝ) : hypot x y * Real.sin (atan2 y x) = y := by
  have hnorm : ‖(⟨x, y⟩ : ℂ)‖ = hypot x y := by
    rw [hypot, Complex.norm_eq_sqrt_sq_add_sq]
  have h := Complex.norm_mul_sin_arg ⟨x, y⟩
  rwa [hnorm] at h

lemma mul_cos_atan2 (y x : ℝ) : hypot x y * Real.cos (atan2 y x) = x := by
  have hnorm : ‖(⟨x, y⟩ : ℂ)‖ = hypot x y := by
    rw [hypot, Complex.norm_eq_sqrt_sq_add_sq]
  have h := Complex.norm_mul_cos_arg ⟨x, y⟩
  rwa [hnorm] at h

@[simp] lemma atan2_zero_zero : atan2 0 0 = 0 := Complex.arg_zero

end Exact

end EqualArea
