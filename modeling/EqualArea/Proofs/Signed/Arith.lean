import EqualArea.Proofs.Exact.Arith

/-!
# Real arithmetic with a signed zero

The carrier at which magnitudes are exact and a zero has a sign.

* `Signed` — a real number or the negative zero, with its `Signed.value` and its sign
  `Signed.Negative`.
* `Signed.withSign` — a real number as the result of an operation, with the sign it has as a zero.
* the instance of `Arith`, with the signs of zero that IEEE 754 gives.
* `value_atan2_mem`, `negative_iff_of_ne` — the range of angles, and the sign of what is not zero.

**Design.**  Every operation is the one of the real numbers on the values, so only the sign of a
zero result is new: a sum is a negative zero when both terms are negative, a product and a quotient
when the signs differ, a remainder and an odd function when the argument is negative.  A comparison
does not see the sign of a zero; `signum` and `atan2` do.  What has no value at the real numbers has
the stand-in it has there.
-/

namespace EqualArea

/-- A real number, where zero has a sign. -/
inductive Signed where
  /-- A real number; as a zero it is the positive one. -/
  | of (x : ℝ)
  /-- The negative zero. -/
  | negZero

namespace Signed

/-- The number, without the sign of a zero. -/
def value : Signed → ℝ
  | of x => x
  | negZero => 0

/-- The sign is minus. -/
def Negative : Signed → Prop
  | of x => x < 0
  | negZero => True

open Classical in
/-- A real number, with the sign it has as a zero. -/
noncomputable def withSign (negative : Prop) (x : ℝ) : Signed :=
  if x = 0 ∧ negative then negZero else of x

open Classical in
/-- One with the sign of the argument. -/
noncomputable def signum (x : Signed) : Signed := of (if x.Negative then -1 else 1)

open Classical in
/-- The angle of the point with ordinate `y` and abscissa `x`.  Where the ordinate is zero, its sign
is the side from which the point is seen and the sign of the abscissa the direction. -/
noncomputable def atan2 (y x : Signed) : Signed :=
  if y.value = 0 then
    if x.Negative then of (if y.Negative then -Real.pi else Real.pi) else withSign y.Negative 0
  else of (Exact.atan2 y.value x.value)

/-- An odd function keeps the sign of a zero. -/
noncomputable def odd (f : ℝ → ℝ) (x : Signed) : Signed := withSign x.Negative (f x.value)

end Signed

open Signed in
noncomputable instance : Arith Signed where
  add x y := withSign (x.Negative ∧ y.Negative) (x.value + y.value)
  sub x y := withSign (x.Negative ∧ ¬y.Negative) (x.value - y.value)
  mul x y := withSign (Xor x.Negative y.Negative) (x.value * y.value)
  div x y := withSign (Xor x.Negative y.Negative) (x.value / y.value)
  neg x := withSign (¬x.Negative) (-x.value)
  lt x y := x.value < y.value
  le x y := x.value ≤ y.value
  beq x y := @BEq.beq ℝ Arith.toBEq x.value y.value
  decidableLT _ _ := Classical.propDecidable _
  decidableLE _ _ := Classical.propDecidable _
  ofNat n := of (Arith.ofNat n)
  ofDecimal m e := of (Arith.ofDecimal m e)
  abs x := of (Arith.abs x.value)
  mulAdd x y z :=
    withSign (Xor x.Negative y.Negative ∧ z.Negative) (Arith.mulAdd x.value y.value z.value)
  signum := signum
  rem x y := withSign x.Negative (Arith.rem x.value y.value)
  sqrt x := withSign x.Negative (Arith.sqrt x.value)
  pow x y := withSign (x.Negative ∧ ∃ k : ℤ, Odd k ∧ y.value = k) (Arith.pow x.value y.value)
  log x := of (Arith.log x.value)
  sin := odd Arith.sin
  cos x := of (Arith.cos x.value)
  asin := odd Arith.asin
  atanh := odd Arith.atanh
  atan2 := atan2
  hypot x y := of (Arith.hypot x.value y.value)
  pi := of Arith.pi
  nan := of Arith.nan
  infinity := of Arith.infinity
  isFinite x := Arith.isFinite x.value

namespace Signed

variable {x y : Signed}

/-! ## Value and sign -/

@[simp] lemma value_of (r : ℝ) : (of r).value = r := rfl

@[simp] lemma negative_of {r : ℝ} : (of r).Negative ↔ r < 0 := Iff.rfl

@[simp] lemma value_withSign (negative : Prop) (r : ℝ) : (withSign negative r).value = r := by
  unfold withSign
  split_ifs with h
  · exact h.1.symm
  · rfl

@[simp] lemma negative_withSign {negative : Prop} {r : ℝ} :
    (withSign negative r).Negative ↔ r < 0 ∨ r = 0 ∧ negative := by
  unfold withSign
  split_ifs with h
  · exact iff_of_true trivial (.inr h)
  · exact (or_iff_left h).symm

lemma withSign_of_not {negative : Prop} (h : ¬negative) (r : ℝ) : withSign negative r = of r :=
  if_neg fun hzero => h hzero.2

/-- A number that is not zero has the sign of its value. -/
lemma negative_iff_of_ne (h : x.value ≠ 0) : x.Negative ↔ x.value < 0 := by
  cases x with
  | of r => rfl
  | negZero => exact absurd rfl h

/-! ## The operations of the instance -/

@[simp] lemma value_zero : (0 : Signed).value = 0 := rfl

@[simp] lemma value_one : (1 : Signed).value = 1 := rfl

@[simp] lemma value_two : (2 : Signed).value = 2 := rfl

@[simp] lemma value_ofScientific (m : ℕ) (negative : Bool) (e : ℕ) :
    (@OfScientific.ofScientific Signed Arith.instOfScientific m negative e).value =
      OfScientific.ofScientific m negative e := Exact.ofScientific_eq m negative e

@[simp] lemma value_add : (x + y).value = x.value + y.value := value_withSign _ _

@[simp] lemma value_sub : (x - y).value = x.value - y.value := value_withSign _ _

@[simp] lemma value_mul : (x * y).value = x.value * y.value := value_withSign _ _

@[simp] lemma value_div : (x / y).value = x.value / y.value := value_withSign _ _

@[simp] lemma value_rem : (Arith.rem x y).value = Exact.rem x.value y.value := value_withSign _ _

lemma negative_add : (x + y).Negative ↔
    x.value + y.value < 0 ∨ x.value + y.value = 0 ∧ x.Negative ∧ y.Negative := negative_withSign

lemma negative_rem : (Arith.rem x y).Negative ↔
    Exact.rem x.value y.value < 0 ∨ Exact.rem x.value y.value = 0 ∧ x.Negative := negative_withSign

@[simp] lemma value_abs : (Arith.abs x).value = |x.value| := rfl

@[simp] lemma value_hypot : (Arith.hypot x y).value = Exact.hypot x.value y.value := rfl

@[simp] lemma value_pi : (Arith.pi : Signed).value = Real.pi := rfl

@[simp] lemma isFinite_eq (x : Signed) : Arith.isFinite x = true := rfl

lemma signum_eq (x : Signed) : Arith.signum x = signum x := rfl

@[simp] lemma lt_iff : x < y ↔ x.value < y.value := Iff.rfl

@[simp] lemma le_iff : x ≤ y ↔ x.value ≤ y.value := Iff.rfl

@[simp] lemma beq_iff : (x == y) = true ↔ x.value = y.value := Exact.beq_iff

@[simp] lemma isNaN_eq (x : Signed) : Arith.isNaN x = false := by simp [Arith.isNaN]

/-- An angle is between minus a half turn and a half turn, both included. -/
lemma value_atan2_mem (y x : Signed) : (Arith.atan2 y x).value ∈ Set.Icc (-Real.pi) Real.pi := by
  have hpi := Real.pi_pos
  change (atan2 y x).value ∈ _
  unfold atan2
  split_ifs
  · exact Set.left_mem_Icc.mpr (by linarith)
  · exact Set.right_mem_Icc.mpr (by linarith)
  · rw [value_withSign]
    exact ⟨by linarith, hpi.le⟩
  · exact ⟨(Complex.neg_pi_lt_arg _).le, Complex.arg_le_pi _⟩

end Signed

end EqualArea
