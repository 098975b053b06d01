import Mathlib

/-!
# Power series cut off at an order

Arithmetic of power series in one variable, up to an order, whose coefficients are polynomials in
another one with rational coefficients.

* `Poly.add`, `Poly.mul`, `Poly.value` — polynomials, given by their coefficients, lowest first.
* `Jet.add`, `Jet.mul`, `Jet.exp`, `Jet.value` — power series, given by the polynomials that belong
  to the powers of the variable.
* `Jet.Agrees` — a power series and a function that differ by a multiple of a power of the
variable; by `Jet.Agrees.add`, `Jet.Agrees.mul` and `Jet.Agrees.exp` this is kept by the
  operations.

**Design.**  The operations compute, so whether a combination of series vanishes up to the order is
decided by carrying it out.  A function is compared with a series at two variables that depend on a
parameter, along a filter of the parameter; nothing but that both stay bounded is used.
-/

namespace EqualArea

/-! ## Polynomials -/

namespace Poly

/-- The sum of two polynomials. -/
def add : List ℚ → List ℚ → List ℚ
  | [], q => q
  | p, [] => p
  | a :: p, b :: q => (a + b) :: add p q

/-- The product of two polynomials. -/
def mul : List ℚ → List ℚ → List ℚ
  | [], _ => []
  | a :: p, q => add (q.map (a * ·)) (0 :: mul p q)

variable {K : Type*} [Field K]

/-- The value of a polynomial. -/
def value (z : K) : List ℚ → K
  | [] => 0
  | a :: p => a + z * value z p

variable (z : K)

@[simp] lemma value_nil : value z [] = 0 := rfl

@[simp] lemma value_cons (a : ℚ) (p : List ℚ) : value z (a :: p) = a + z * value z p := rfl

@[simp] lemma value_add [CharZero K] (p q : List ℚ) : value z (add p q) = value z p + value z q := by
  induction p, q using add.induct with
  | case1 q => simp [add]
  | case2 p hp => cases p <;> simp [add]
  | case3 a p b q ih =>
    simp only [add, value_cons, ih]
    push_cast
    ring

@[simp] lemma value_map_mul [CharZero K] (c : ℚ) (p : List ℚ) :
    value z (p.map (c * ·)) = c * value z p := by
  induction p with
  | nil => simp
  | cons a p ih =>
    simp only [List.map_cons, value_cons, ih]
    push_cast
    ring

@[simp] lemma value_mul [CharZero K] (p q : List ℚ) : value z (mul p q) = value z p * value z q := by
  induction p with
  | nil => simp [mul]
  | cons a p ih =>
    simp only [mul, value_add, value_map_mul, value_cons, ih, Rat.cast_zero]
    ring

@[simp] lemma value_replicate_append (k : ℕ) (p : List ℚ) :
    value z (List.replicate k 0 ++ p) = z ^ k * value z p := by
  induction k with
  | zero => simp
  | succ k ih =>
    simp only [List.replicate_succ, List.cons_append, value_cons, ih, Rat.cast_zero]
    ring

lemma value_ofReal (x : ℝ) (p : List ℚ) : ((value x p : ℝ) : ℂ) = value (x : ℂ) p := by
  induction p with
  | nil => exact Complex.ofReal_zero
  | cons a p ih =>
    rw [value_cons, value_cons, ← ih]
    push_cast
    ring

end Poly

/-! ## Power series -/

namespace Jet

/-- The sum of two power series. -/
def add : List (List ℚ) → List (List ℚ) → List (List ℚ)
  | [], r => r
  | s, [] => s
  | p :: s, q :: r => Poly.add p q :: add s r

/-- The product of two power series, without the powers from the order on. -/
def mul : ℕ → List (List ℚ) → List (List ℚ) → List (List ℚ)
  | 0, _, _ => []
  | _ + 1, [], _ => []
  | k + 1, p :: s, r => add ((r.take (k + 1)).map (Poly.mul p)) ([] :: mul k s r)

/-- A multiple of a power series. -/
def scale (c : ℚ) (s : List (List ℚ)) : List (List ℚ) := s.map fun p => p.map (c * ·)

/-- The sum of as many terms of the exponential series as told, of which the first is given
together with its place in the series. -/
def expFrom (order : ℕ) (s : List (List ℚ)) : ℕ → ℕ → List (List ℚ) → List (List ℚ)
  | 0, _, _ => []
  | terms + 1, m, term =>
    add term (expFrom order s terms (m + 1) (scale (1 / (m + 1)) (mul order term s)))

/-- The exponential of a power series without a constant term. -/
def exp (order : ℕ) (s : List (List ℚ)) : List (List ℚ) := expFrom order s order 0 [[1]]

section

variable {K : Type*} [Field K]

/-- The value of a power series. -/
def value (z t : K) : List (List ℚ) → K
  | [] => 0
  | p :: s => Poly.value z p + t * value z t s

variable (z t : K)

@[simp] lemma value_nil : value z t [] = 0 := rfl

@[simp] lemma value_cons (p : List ℚ) (s : List (List ℚ)) :
    value z t (p :: s) = Poly.value z p + t * value z t s := rfl

@[simp] lemma value_add [CharZero K] (s r : List (List ℚ)) :
    value z t (add s r) = value z t s + value z t r := by
  induction s, r using add.induct with
  | case1 r => simp [add]
  | case2 s hs => cases s <;> simp [add]
  | case3 p s q r ih =>
    simp only [add, value_cons, ih, Poly.value_add]
    ring

/-- What multiplies every coefficient multiplies the series. -/
lemma value_map {f : List ℚ → List ℚ} {c : K} (hf : ∀ p, Poly.value z (f p) = c * Poly.value z p)
    (s : List (List ℚ)) : value z t (s.map f) = c * value z t s := by
  induction s with
  | nil => simp
  | cons p s ih =>
    simp only [List.map_cons, value_cons, ih, hf]
    ring

@[simp] lemma value_scale [CharZero K] (c : ℚ) (s : List (List ℚ)) :
    value z t (scale c s) = c * value z t s := value_map z t (Poly.value_map_mul z c) s

@[simp] lemma value_replicate_append (k : ℕ) (s : List (List ℚ)) :
    value z t (List.replicate k [] ++ s) = t ^ k * value z t s := by
  induction k with
  | zero => simp
  | succ k ih =>
    simp only [List.replicate_succ, List.cons_append, value_cons, ih, Poly.value_nil]
    ring

lemma value_of_all [CharZero K] {s : List (List ℚ)} (h : s.all (·.all (· == 0))) : value z t s = 0 := by
  have hpoly : ∀ p : List ℚ, p.all (· == 0) → Poly.value z p = 0 := by
    intro p hp
    induction p with
    | nil => rfl
    | cons a p ih =>
      rw [List.all_cons, Bool.and_eq_true, beq_iff_eq] at hp
      rw [Poly.value_cons, hp.1, ih hp.2, Rat.cast_zero, mul_zero, add_zero]
  induction s with
  | nil => rfl
  | cons p s ih =>
    rw [List.all_cons, Bool.and_eq_true] at h
    rw [value_cons, hpoly p h.1, ih h.2, mul_zero, add_zero]

end

/-! ## Agreement with functions -/

open Asymptotics

variable {ι : Type*} {l : Filter ι} {z t : ι → ℂ} {order : ℕ}

/-- The function differs from the values of the series by a multiple of a power of the variable. -/
def Agrees (l : Filter ι) (z t : ι → ℂ) (order : ℕ) (s : List (List ℚ)) (f : ι → ℂ) : Prop :=
  (fun i => f i - value (z i) (t i) s) =O[l] fun i => t i ^ order

lemma isBigO_one_mul {f g : ι → ℂ} (hf : f =O[l] fun _ => (1 : ℂ)) (hg : g =O[l] fun _ => (1 : ℂ)) :
    (fun i => f i * g i) =O[l] fun _ => (1 : ℂ) := by simpa using hf.mul hg

lemma value_isBigO_one (hz : z =O[l] fun _ => (1 : ℂ)) (ht : t =O[l] fun _ => (1 : ℂ))
    (s : List (List ℚ)) : (fun i => value (z i) (t i) s) =O[l] fun _ => (1 : ℂ) := by
  have hpoly : ∀ p : List ℚ, (fun i => Poly.value (z i) p) =O[l] fun _ => (1 : ℂ) := by
    intro p
    induction p with
    | nil => exact isBigO_zero _ _
    | cons a p ih => exact (isBigO_const_const (a : ℂ) one_ne_zero l).add (isBigO_one_mul hz ih)
  induction s with
  | nil => exact isBigO_zero _ _
  | cons p s ih => exact (hpoly p).add (isBigO_one_mul ht ih)

/-- What is cut off is a multiple of the power it is cut off at. -/
lemma value_take (hz : z =O[l] fun _ => (1 : ℂ)) (ht : t =O[l] fun _ => (1 : ℂ)) (k : ℕ)
    (s : List (List ℚ)) :
    (fun i => value (z i) (t i) (s.take k) - value (z i) (t i) s) =O[l] fun i => t i ^ k := by
  induction k generalizing s with
  | zero => simpa using value_isBigO_one hz ht s
  | succ k ih =>
    cases s with
    | nil => simpa using isBigO_zero _ _
    | cons p s =>
      have hstep : ∀ i, value (z i) (t i) ((p :: s).take (k + 1)) - value (z i) (t i) (p :: s) =
          t i * (value (z i) (t i) (s.take k) - value (z i) (t i) s) := by
        intro i
        rw [List.take_succ_cons, value_cons, value_cons]
        ring
      simp only [hstep, pow_succ']
      exact (isBigO_refl t l).mul (ih s)

lemma value_mul (hz : z =O[l] fun _ => (1 : ℂ)) (ht : t =O[l] fun _ => (1 : ℂ)) (k : ℕ)
    (s r : List (List ℚ)) :
    (fun i => value (z i) (t i) (mul k s r) - value (z i) (t i) s * value (z i) (t i) r) =O[l]
      fun i => t i ^ k := by
  induction k, s, r using mul.induct with
  | case1 s r =>
    have hproduct := isBigO_one_mul (value_isBigO_one hz ht s) (value_isBigO_one hz ht r)
    simpa [mul] using hproduct
  | case2 k r => simpa [mul] using isBigO_zero _ _
  | case3 k p s r ih =>
    have hstep : ∀ i, value (z i) (t i) (mul (k + 1) (p :: s) r) -
        value (z i) (t i) (p :: s) * value (z i) (t i) r =
          Poly.value (z i) p * (value (z i) (t i) (r.take (k + 1)) - value (z i) (t i) r) +
            t i * (value (z i) (t i) (mul k s r) -
              value (z i) (t i) s * value (z i) (t i) r) := by
      intro i
      rw [mul, value_add, value_map (z i) (t i) (Poly.value_mul (z i) p), value_cons, value_cons,
        Poly.value_nil]
      ring
    simp only [hstep]
    have hhead := (value_isBigO_one hz ht [p]).mul (value_take hz ht (k + 1) r)
    have htail := (isBigO_refl t l).mul ih
    simp only [value_cons, value_nil, mul_zero, add_zero, one_mul] at hhead
    simp only [← pow_succ'] at htail
    exact hhead.add htail

namespace Agrees

variable {s r : List (List ℚ)} {f g : ι → ℂ}

lemma congr (hf : Agrees l z t order s f) (h : ∀ i, f i = g i) : Agrees l z t order s g := by
  rwa [← funext h]

/-- A series agrees with its own values. -/
lemma value (s : List (List ℚ)) : Agrees l z t order s fun i => Jet.value (z i) (t i) s := by
  simpa [Agrees] using isBigO_zero _ _

lemma add (hf : Agrees l z t order s f) (hg : Agrees l z t order r g) :
    Agrees l z t order (Jet.add s r) fun i => f i + g i := by
  refine (IsBigO.add hf hg).congr_left fun i => ?_
  rw [value_add]
  ring

lemma scale (c : ℚ) (hf : Agrees l z t order s f) :
    Agrees l z t order (Jet.scale c s) fun i => c * f i := by
  refine (IsBigO.const_mul_left hf (c : ℂ)).congr_left fun i => ?_
  rw [value_scale]
  ring

/-- What agrees with a series is bounded. -/
lemma isBigO_one (hz : z =O[l] fun _ => (1 : ℂ)) (ht : t =O[l] fun _ => (1 : ℂ))
    (hf : Agrees l z t order s f) : f =O[l] fun _ => (1 : ℂ) := by
  have hpow : (fun i => t i ^ order) =O[l] fun _ => (1 : ℂ) := by simpa using ht.pow order
  refine ((IsBigO.trans hf hpow).add (value_isBigO_one hz ht s)).congr_left fun i => ?_
  ring

lemma mul (hz : z =O[l] fun _ => (1 : ℂ)) (ht : t =O[l] fun _ => (1 : ℂ))
    (hf : Agrees l z t order s f) (hg : Agrees l z t order r g) :
    Agrees l z t order (Jet.mul order s r) fun i => f i * g i := by
  have hleft : (fun i => (f i - Jet.value (z i) (t i) s) * g i) =O[l] fun i => t i ^ order := by
    simpa only [mul_one] using IsBigO.mul hf (hg.isBigO_one hz ht)
  have hright : (fun i => Jet.value (z i) (t i) s * (g i - Jet.value (z i) (t i) r)) =O[l]
      fun i => t i ^ order := by
    simpa only [one_mul] using (value_isBigO_one hz ht s).mul hg
  refine ((hleft.add hright).sub (value_mul hz ht order s r)).congr_left fun i => ?_
  ring

/-- The exponential series, summed from a term on. -/
lemma expFrom (hz : z =O[l] fun _ => (1 : ℂ)) (ht : t =O[l] fun _ => (1 : ℂ))
    (hf : Agrees l z t order s f) (terms m : ℕ) {term : List (List ℚ)}
    (hterm : Agrees l z t order term fun i => f i ^ m / m.factorial) :
    Agrees l z t order (Jet.expFrom order s terms m term) fun i =>
      ∑ j ∈ Finset.range terms, f i ^ (m + j) / (m + j).factorial := by
  induction terms generalizing m term with
  | zero => exact Agrees.value []
  | succ terms ih =>
    have hnext : Agrees l z t order (Jet.scale (1 / (m + 1)) (Jet.mul order term s)) fun i =>
        f i ^ (m + 1) / (m + 1).factorial := by
      refine ((hterm.mul hz ht hf).scale _).congr fun i => ?_
      have hfactorial : (m.factorial : ℂ) ≠ 0 := Nat.cast_ne_zero.mpr m.factorial_ne_zero
      have hsucc : (m : ℂ) + 1 ≠ 0 := Nat.cast_add_one_ne_zero m
      rw [Nat.factorial_succ]
      push_cast
      field_simp
      ring
    refine (hterm.add (ih (m + 1) hnext)).congr fun i => ?_
    rw [Finset.sum_range_succ', add_comm, add_zero]
    simp only [add_assoc, add_comm 1]

/-- What agrees with a series without a constant term is a multiple of the variable. -/
lemma isBigO_variable (hz : z =O[l] fun _ => (1 : ℂ)) (ht : t =O[l] fun _ => (1 : ℂ))
    (hhead : s.headD [] = []) (hf : Agrees l z t (order + 1) s f) : f =O[l] t := by
  have hpow : (fun i => t i ^ (order + 1)) =O[l] t := by
    simpa [pow_succ] using (ht.pow order).mul (isBigO_refl t l)
  have hvalue : (fun i => Jet.value (z i) (t i) s) =O[l] t := by
    cases s with
    | nil => exact isBigO_zero _ _
    | cons p s =>
      obtain rfl : p = [] := hhead
      simpa using (isBigO_refl t l).mul (value_isBigO_one hz ht s)
  refine ((IsBigO.trans hf hpow).add hvalue).congr_left fun i => ?_
  ring

/-- **The exponential.**  The rest of its series is as small as the first power left out. -/
theorem exp (hz : z =O[l] fun _ => (1 : ℂ)) (ht : t =O[l] fun _ => (1 : ℂ))
    (hhead : s.headD [] = []) (hf : Agrees l z t (order + 1) s f) :
    Agrees l z t (order + 1) (Jet.exp (order + 1) s) fun i => Complex.exp (f i) := by
  have hone : Agrees l z t (order + 1) [[1]] fun i => f i ^ 0 / (Nat.factorial 0 : ℂ) :=
    (Agrees.value [[1]]).congr fun i => by simp
  have hsum := hf.expFrom hz ht (order + 1) 0 hone
  have hbounded : (fun i => (Real.exp ‖f i‖ : ℂ)) =O[l] fun _ => (1 : ℂ) := by
    obtain ⟨c, hc⟩ := (hf.isBigO_one hz ht).bound
    refine IsBigO.of_bound (Real.exp c) ?_
    filter_upwards [hc] with i hi
    rw [norm_one, mul_one] at hi ⊢
    rw [Complex.norm_real, Real.norm_of_nonneg (Real.exp_pos _).le]
    exact Real.exp_le_exp.mpr hi
  have hrest : (fun i => Complex.exp (f i) -
      ∑ j ∈ Finset.range (order + 1), f i ^ j / j.factorial) =O[l] fun i => t i ^ (order + 1) := by
    have hproduct := ((hf.isBigO_variable hz ht hhead).pow (order + 1)).mul hbounded
    refine (IsBigO.of_bound 1 (.of_forall fun i => ?_)).trans
      (hproduct.congr_right fun i => mul_one _)
    have hle := Complex.norm_exp_sub_sum_le_norm_mul_exp (f i) (order + 1)
    rwa [one_mul, norm_mul, norm_pow, Complex.norm_real, Real.norm_of_nonneg (Real.exp_pos _).le]
  simp only [zero_add] at hsum
  refine (hrest.add hsum).congr_left fun i => ?_
  rw [Jet.exp]
  ring

end Agrees

end Jet

end EqualArea
