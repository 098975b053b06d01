import EqualArea.Proofs.Exact.Arith

/-!
# Arithmetic that notices undefined operations

The carrier at which a formula shows whether it leaves the domain of a partial operation.

* `Guarded` — a real number, or nothing, which is what a partial operation gives outside its
  domain and what every operation gives on nothing.
* `Verdict` — how nothing compares.
* the instance of `Arith`, and `of_div`, `of_sqrt`, `of_log`, `of_asin`, `of_atanh`, `of_rem` — the
  domains of the partial operations.

**Design.**  A comparison has to answer, so an undefined operand compares as a verdict says.  The
verdict is arbitrary: a formula that gives the same number under every verdict does not owe it to
a comparison with nothing.  The formulas are the ones that run, at another carrier, so no list of
their operations has to be kept in step with them.
-/

namespace EqualArea

/-- The answers to the questions that are asked about an undefined operand. -/
structure Verdict where
  /-- Whether one is less than the other. -/
  lt : Option ℝ → Option ℝ → Bool
  /-- Whether one is at most the other. -/
  le : Option ℝ → Option ℝ → Bool
  /-- Whether the two are equal. -/
  eq : Option ℝ → Option ℝ → Bool
  /-- Whether nothing is a finite number. -/
  finite : Bool

/-- A real number, or nothing. -/
inductive Guarded (v : Verdict) where
  /-- A real number. -/
  | of (x : ℝ)
  /-- The result of an operation outside its domain. -/
  | undefined

namespace Guarded

variable {v : Verdict}

/-- The number, if there is one. -/
def value? : Guarded v → Option ℝ
  | of x => some x
  | undefined => none

/-- An operation that is defined everywhere. -/
def total (f : ℝ → ℝ) : Guarded v → Guarded v
  | of x => of (f x)
  | undefined => undefined

/-- An operation on two numbers that is defined everywhere. -/
def total₂ (f : ℝ → ℝ → ℝ) : Guarded v → Guarded v → Guarded v
  | of x, of y => of (f x y)
  | _, _ => undefined

open Classical in
/-- An operation with a domain. -/
noncomputable def partly (domain : ℝ → Prop) (f : ℝ → ℝ) : Guarded v → Guarded v
  | of x => if domain x then of (f x) else undefined
  | undefined => undefined

open Classical in
/-- An operation on two numbers with a domain. -/
noncomputable def partly₂ (domain : ℝ → ℝ → Prop) (f : ℝ → ℝ → ℝ) :
    Guarded v → Guarded v → Guarded v
  | of x, of y => if domain x y then of (f x y) else undefined
  | _, _ => undefined

/-- A comparison, with the answer for undefined operands. -/
def compare (answer : Option ℝ → Option ℝ → Bool) (r : ℝ → ℝ → Prop) : Guarded v → Guarded v → Prop
  | of x, of y => r x y
  | x, y => answer x.value? y.value? = true

end Guarded

open Guarded in
noncomputable instance (v : Verdict) : Arith (Guarded v) where
  add := total₂ (· + ·)
  sub := total₂ (· - ·)
  mul := total₂ (· * ·)
  div := partly₂ (fun _ y => y ≠ 0) (· / ·)
  neg := total (-·)
  lt := compare v.lt (· < ·)
  le := compare v.le (· ≤ ·)
  beq x y := @decide (compare v.eq (· = ·) x y) (Classical.propDecidable _)
  decidableLT _ _ := Classical.propDecidable _
  decidableLE _ _ := Classical.propDecidable _
  ofNat n := of (Arith.ofNat n)
  ofDecimal m e := of (Arith.ofDecimal m e)
  abs := total Arith.abs
  mulAdd x y z := total₂ (· + ·) (total₂ (· * ·) x y) z
  signum := total Arith.signum
  rem := partly₂ (fun _ y => y ≠ 0) Arith.rem
  sqrt := partly (0 ≤ ·) Arith.sqrt
  pow := partly₂ (fun x _ => 0 < x) Arith.pow
  log := partly (0 < ·) Arith.log
  sin := total Arith.sin
  cos := total Arith.cos
  asin := partly (· ∈ Set.Icc (-1) 1) Arith.asin
  atanh := partly (· ∈ Set.Ioo (-1) 1) Arith.atanh
  atan2 := total₂ Arith.atan2
  hypot := total₂ Arith.hypot
  pi := of Arith.pi
  nan := of Arith.nan
  infinity := of Arith.infinity
  isFinite
    | of x => Arith.isFinite x
    | undefined => v.finite

namespace Guarded

variable {v : Verdict} {x y : ℝ}

/-! ## Operations that are defined everywhere -/

@[simp] lemma ofNat_eq (n : ℕ) : @OfNat.ofNat (Guarded v) n (Arith.instOfNat n) =
    of (@OfNat.ofNat ℝ n (Arith.instOfNat n)) := rfl

@[simp] lemma ofScientific_eq (m : ℕ) (negative : Bool) (e : ℕ) :
    @OfScientific.ofScientific (Guarded v) Arith.instOfScientific m negative e =
      of (@OfScientific.ofScientific ℝ Arith.instOfScientific m negative e) := rfl

@[simp] lemma of_add : (of x + of y : Guarded v) = of (x + y) := rfl

@[simp] lemma of_sub : (of x - of y : Guarded v) = of (x - y) := rfl

@[simp] lemma of_mul : (of x * of y : Guarded v) = of (x * y) := rfl

@[simp] lemma of_mulAdd {z : ℝ} :
    (Arith.mulAdd (of x) (of y) (of z) : Guarded v) = of (Arith.mulAdd x y z) := rfl

@[simp] lemma of_neg : (-of x : Guarded v) = of (-x) := rfl

@[simp] lemma of_abs : (Arith.abs (of x) : Guarded v) = of (Arith.abs x) := rfl

@[simp] lemma of_signum : (Arith.signum (of x) : Guarded v) = of (Arith.signum x) := rfl

@[simp] lemma of_sin : (Arith.sin (of x) : Guarded v) = of (Arith.sin x) := rfl

@[simp] lemma of_cos : (Arith.cos (of x) : Guarded v) = of (Arith.cos x) := rfl

@[simp] lemma of_atan2 : (Arith.atan2 (of y) (of x) : Guarded v) = of (Arith.atan2 y x) := rfl

@[simp] lemma of_hypot : (Arith.hypot (of x) (of y) : Guarded v) = of (Arith.hypot x y) := rfl

@[simp] lemma pi_eq : (Arith.pi : Guarded v) = of Arith.pi := rfl

@[simp] lemma nan_eq : (Arith.nan : Guarded v) = of Arith.nan := rfl

/-! ## Comparisons -/

@[simp] lemma of_lt : (of x : Guarded v) < of y ↔ x < y := Iff.rfl

@[simp] lemma of_le : (of x : Guarded v) ≤ of y ↔ x ≤ y := Iff.rfl

@[simp] lemma of_beq : @BEq.beq (Guarded v) Arith.toBEq (of x) (of y) =
    @BEq.beq ℝ Arith.toBEq x y := by
  rw [Bool.eq_iff_iff, Exact.beq_iff]
  exact @decide_eq_true_iff _ (Classical.propDecidable _)

@[simp] lemma of_isFinite : Arith.isFinite (of x : Guarded v) = true := rfl

@[simp] lemma of_isNaN : Arith.isNaN (of x : Guarded v) = Arith.isNaN x := by
  simp [Arith.isNaN]

/-! ## Operations with a domain -/

lemma of_div (h : y ≠ 0) : (of x / of y : Guarded v) = of (x / y) := if_pos h

lemma of_rem (h : y ≠ 0) : (Arith.rem (of x) (of y) : Guarded v) = of (Arith.rem x y) := if_pos h

lemma of_sqrt (h : 0 ≤ x) : (Arith.sqrt (of x) : Guarded v) = of (Arith.sqrt x) := if_pos h

lemma of_log (h : 0 < x) : (Arith.log (of x) : Guarded v) = of (Arith.log x) := if_pos h

lemma of_asin (h : x ∈ Set.Icc (-1 : ℝ) 1) : (Arith.asin (of x) : Guarded v) = of (Arith.asin x) :=
  if_pos h

lemma of_atanh (h : x ∈ Set.Ioo (-1 : ℝ) 1) :
    (Arith.atanh (of x) : Guarded v) = of (Arith.atanh x) := if_pos h

/-! ## Derived notions -/

@[simp] lemma of_clamp (lo hi : ℝ) :
    (Arith.clamp (of lo) (of hi) (of x) : Guarded v) = of (Arith.clamp lo hi x) := by
  unfold Arith.clamp
  simp only [of_lt]
  split_ifs <;> rfl

@[simp] lemma quarterTurn_eq : (Arith.quarterTurn : Guarded v) = of Arith.quarterTurn :=
  of_div two_ne_zero

end Guarded

end EqualArea
