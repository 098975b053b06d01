import EqualArea.Proofs.Authalic.Jet
import EqualArea.Proofs.Authalic.Latitude

/-!
# The series for the authalic latitude undo each other

A sine series whose coefficients are polynomials of a parameter is followed by another one, and the
angle that was started from is found again up to a power of the parameter.

* `Series.powersFrom`, `Series.sinesFrom_eq_powersFrom` — a sine series as a sum of powers of a
  complex unit.
* `Jet.term`, `Jet.compose` — the powers of a product, with the coefficients of a table, as a power
  series; by `Jet.compose_agrees` it agrees with the sum.
* `Jet.residue`, `Jet.undoes` — what is left of the angle after both series, and whether it
  vanishes up to an order.
* `Series.undo` — a table that undoes another one as power series undoes it up to that order, at
  every angle.
* `Authalic.series_undo_each_other` — the table for the authalic latitude.

**Design.**  With `z = exp (2 i φ)` and `t = n / z` the parameter is `t z`, and the product of a
power `n ^ k` with `z ^ (± k)` is a polynomial in `t` and `z`.  So the composition of the two series
is a power series in `t` whose coefficients are polynomials in `z`, and the power of `n` it is cut
off at is that of `t`.  The table is read at the rational numbers to compute with it.
-/

namespace EqualArea

open Asymptotics

/-! ## Sine series as sums of powers -/

namespace Series

/-- The sum of the multiples of `w ^ k`, `w ^ (k + 1)`, … by the members of a list. -/
noncomputable def powersFrom (w : ℂ) (k : ℕ) : List ℝ → ℂ
  | [] => 0
  | c :: rest => c * w ^ k + powersFrom w (k + 1) rest

lemma sinesFrom_eq_powersFrom (x : ℝ) (k : ℕ) (cs : List ℝ) :
    2 * Complex.I * (sinesFrom x k cs : ℂ) =
      powersFrom (Complex.exp (x * Complex.I)) k cs -
        powersFrom (Complex.exp (-(x * Complex.I))) k cs := by
  induction cs generalizing k with
  | nil => simp [sinesFrom, powersFrom]
  | cons c rest ih =>
    have hsin : 2 * Complex.I * (Real.sin (k * x) : ℂ) =
        Complex.exp (x * Complex.I) ^ k - Complex.exp (-(x * Complex.I)) ^ k := by
      have hforward : (k : ℂ) * (x * Complex.I) = k * x * Complex.I := by ring
      have hbackward : (k : ℂ) * -(x * Complex.I) = -(k * x) * Complex.I := by ring
      rw [← Complex.exp_nat_mul, ← Complex.exp_nat_mul, hforward, hbackward]
      push_cast
      linear_combination Complex.I * Complex.two_sin (k * x) +
        (Complex.exp (-(k * x) * Complex.I) - Complex.exp (k * x * Complex.I)) * Complex.I_mul_I
    simp only [sinesFrom, powersFrom]
    push_cast at hsin ⊢
    linear_combination (c : ℂ) * hsin + ih (k + 1)

/-- The polynomial of a row of rational factors. -/
lemma parametric_map_cast (n : ℝ) (row : List ℚ) :
    parametric n (row.map (↑)) = n * Poly.value n row := by
  have hhorner : horner n (row.map (↑)) = Poly.value n row := by
    induction row with
    | nil => rfl
    | cons c row ih =>
      rw [List.map_cons, horner_cons, ih, Poly.value_cons]
      ring
  rw [parametric, hhorner]

lemma parametric_cast (n : ℝ) (row : List ℚ) :
    ((parametric n (row.map (↑)) : ℝ) : ℂ) = n * Poly.value (n : ℂ) row := by
  rw [parametric_map_cast, Complex.ofReal_mul, Poly.value_ofReal]

/-- The coefficients of a sine series from a table of rational factors. -/
noncomputable def ofTable (rows : List (List ℚ)) (n : ℝ) : List ℝ :=
  rows.map fun row => parametric n (row.map (↑))

lemma ofTable_cons (row : List ℚ) (rows : List (List ℚ)) (n : ℝ) :
    ofTable (row :: rows) n = parametric n (row.map (↑)) :: ofTable rows n := rfl

end Series

/-! ## The powers of a table -/

namespace Jet

/-- A polynomial of the product of the two variables. -/
def inProduct : List ℚ → List (List ℚ)
  | [] => []
  | c :: cs => [c] :: (inProduct cs).map (0 :: ·)

lemma value_inProduct (z t : ℂ) (cs : List ℚ) :
    value z t (inProduct cs) = Poly.value (t * z) cs := by
  induction cs with
  | nil => rfl
  | cons c cs ih =>
    have hshift : value z t ((inProduct cs).map (0 :: ·)) = z * value z t (inProduct cs) :=
      value_map z t (fun p => by simp) _
    rw [inProduct, value_cons, hshift, ih]
    simp only [Poly.value_cons, Poly.value_nil]
    ring

/-- The polynomial of a row whose first `k` factors are zeros, times a power: with as many turns of
the first variable for each of the `k + 1` factors of the power. -/
def term (turns k : ℕ) (row : List ℚ) : List (List ℚ) :=
  List.replicate (k + 1) [] ++
    (inProduct (row.drop k)).map (List.replicate (turns * (k + 1)) 0 ++ ·)

lemma value_term {z t v : ℂ} {turns k : ℕ} {row : List ℚ} (hv : t * z * v = t * z ^ turns)
    (hrow : row.take k = List.replicate k 0) :
    value z t (term turns k row) =
      t * z * Poly.value (t * z) row * v ^ (k + 1) := by
  have hrows : row = List.replicate k 0 ++ row.drop k := by
    rw [← hrow, List.take_append_drop]
  have hpower : (t * z ^ turns) ^ (k + 1) = (t * z) ^ (k + 1) * v ^ (k + 1) := by
    rw [← hv, mul_pow]
  have hshift : value z t ((inProduct (row.drop k)).map (List.replicate (turns * (k + 1)) 0 ++ ·)) =
      z ^ (turns * (k + 1)) * value z t (inProduct (row.drop k)) :=
    value_map z t (fun p => Poly.value_replicate_append z _ p) _
  rw [term, value_replicate_append, hshift, value_inProduct]
  conv_rhs => rw [hrows, Poly.value_replicate_append]
  rw [mul_pow, ← pow_mul] at hpower
  linear_combination Poly.value (t * z) (row.drop k) * hpower

/-- The sum of the terms of the rows from the `k`-th on, times the powers of a series of which the
power of the first term is given. -/
def compose (order turns : ℕ) (x : List (List ℚ)) :
    ℕ → List (List ℚ) → List (List ℚ) → List (List ℚ)
  | _, _, [] => []
  | k, power, row :: rows =>
    add (mul order (term turns k row) power)
      (compose order turns x (k + 1) (mul order power x) rows)

/-- Each row starts with one zero more than the row before. -/
def staggered : ℕ → List (List ℚ) → Bool
  | _, [] => true
  | k, row :: rows => row.take k == List.replicate k 0 && staggered (k + 1) rows

/-- A parameter is the product of two bounded variables, the first of which has an inverse. -/
structure Split {ι : Type*} (l : Filter ι) (n : ι → ℝ) (z v t : ι → ℂ) : Prop where
  bounded : z =O[l] fun _ => (1 : ℂ)
  bounded_rest : t =O[l] fun _ => (1 : ℂ)
  parameter_eq (i : ι) : (n i : ℂ) = t i * z i
  inverse_mul (i : ι) : v i * z i = 1

section

variable {ι : Type*} {l : Filter ι} {n : ι → ℝ} {z v t u : ι → ℂ} {order : ℕ}

/-- The composition of power series agrees with the sum of the powers. -/
theorem compose_agrees (h : Split l n z v t) {turns : ℕ}
    (hu : ∀ i, t i * z i * u i = t i * z i ^ turns) {x : List (List ℚ)} {f : ι → ℂ}
    (hx : Agrees l z t order x f) (k : ℕ) {power : List (List ℚ)}
    (hpower : Agrees l z t order power fun i => f i ^ (k + 1)) {rows : List (List ℚ)}
    (hrows : staggered k rows) :
    Agrees l z t order (compose order turns x k power rows) fun i =>
      Series.powersFrom (u i * f i) (k + 1) (Series.ofTable rows (n i)) := by
  -- The multiple of the angle grows along the table, and the power with it.
  induction rows generalizing k power with
  | nil => exact Agrees.value []
  | cons row rows ih =>
    rw [staggered, Bool.and_eq_true, beq_iff_eq] at hrows
    have hnext : Agrees l z t order (mul order power x) fun i => f i ^ (k + 1 + 1) :=
      (hpower.mul h.bounded h.bounded_rest hx).congr fun i => (pow_succ _ _).symm
    have hterm := (Agrees.value (term turns k row)).mul h.bounded h.bounded_rest hpower
    refine (hterm.add (ih (k + 1) hnext hrows.2)).congr fun i => ?_
    rw [Series.ofTable_cons, Series.powersFrom, Series.parametric_cast, h.parameter_eq, mul_pow,
      value_term (hu i) hrows.1]
    ring

/-- The powers of the unit. -/
lemma compose_unit_agrees (h : Split l n z v t) {up : List (List ℚ)} {f : ι → ℂ}
    (hup : Agrees l z t order up f) {rows : List (List ℚ)} (hrows : staggered 0 rows) :
    Agrees l z t order (compose order 2 up 0 up rows) fun i =>
      Series.powersFrom (z i * f i) 1 (Series.ofTable rows (n i)) := by
  have hturn (i : ι) : t i * z i * z i = t i * z i ^ 2 := by ring
  exact compose_agrees h hturn hup 0 (by simpa using hup) hrows

/-- The powers of its inverse. -/
lemma compose_inverse_agrees (h : Split l n z v t) {down : List (List ℚ)} {g : ι → ℂ}
    (hdown : Agrees l z t order down g) {rows : List (List ℚ)} (hrows : staggered 0 rows) :
    Agrees l z t order (compose order 0 down 0 down rows) fun i =>
      Series.powersFrom (v i * g i) 1 (Series.ofTable rows (n i)) := by
  have hback (i : ι) : t i * z i * v i = t i * z i ^ 0 := by
    rw [mul_assoc, mul_comm (z i), h.inverse_mul, pow_zero]
  exact compose_agrees h hback hdown 0 (by simpa using hdown) hrows

lemma compose_both_agree (h : Split l n z v t) {up down : List (List ℚ)} {f g : ι → ℂ}
    (hup : Agrees l z t order up f) (hdown : Agrees l z t order down g)
    {rows : List (List ℚ)} (hrows : staggered 0 rows) :
    Agrees l z t order
      (add (compose order 2 up 0 up rows) (scale (-1) (compose order 0 down 0 down rows))) fun i =>
        Series.powersFrom (z i * f i) 1 (Series.ofTable rows (n i)) -
          Series.powersFrom (v i * g i) 1 (Series.ofTable rows (n i)) := by
  refine ((compose_unit_agrees h hup hrows).add
    ((compose_inverse_agrees h hdown hrows).scale (-1))).congr fun i => ?_
  push_cast
  ring

end

/-- What a table adds to an angle. -/
def deviation (order : ℕ) (rows : List (List ℚ)) : List (List ℚ) :=
  add (compose order 2 [[1]] 0 [[1]] rows) (scale (-1) (compose order 0 [[1]] 0 [[1]] rows))

/-- What is left of an angle that goes through two tables. -/
def residue (order : ℕ) (there back : List (List ℚ)) : List (List ℚ) :=
  let d := deviation order there
  let up := exp order d
  let down := exp order (scale (-1) d)
  add d (add (compose order 2 up 0 up back) (scale (-1) (compose order 0 down 0 down back)))

/-- Whether a table undoes another one up to an order. -/
def undoes (order : ℕ) (there back : List (List ℚ)) : Bool :=
  staggered 0 there && staggered 0 back && (deviation order there).headD [] == [] &&
    (residue order there back).all (·.all (· == 0))

lemma headD_scale (c : ℚ) {s : List (List ℚ)} (h : s.headD [] = []) :
    (scale c s).headD [] = [] := by
  cases s with
  | nil => rfl
  | cons p s =>
    obtain rfl : p = [] := h
    rfl

/-- What is left of an angle is a multiple of the power of the parameter. -/
theorem residue_isBigO {ι : Type*} {l : Filter ι} {n : ι → ℝ} {z v t : ι → ℂ} {order : ℕ}
    (h : Split l n z v t) {there back : List (List ℚ)} (hundoes : undoes (order + 1) there back)
    {d : ι → ℂ} (hd : ∀ i, d i = Series.powersFrom (z i) 1 (Series.ofTable there (n i)) -
      Series.powersFrom (v i) 1 (Series.ofTable there (n i))) :
    (fun i => d i + (Series.powersFrom (z i * Complex.exp (d i)) 1 (Series.ofTable back (n i)) -
      Series.powersFrom (v i * Complex.exp (-d i)) 1 (Series.ofTable back (n i)))) =O[l]
        fun i => t i ^ (order + 1) := by
  simp only [undoes, Bool.and_eq_true, beq_iff_eq] at hundoes
  obtain ⟨⟨⟨hthere, hback⟩, hhead⟩, hzero⟩ := hundoes
  have hone : Agrees l z t (order + 1) [[1]] fun _ => 1 := (Agrees.value [[1]]).congr fun i => by simp
  have hdeviation : Agrees l z t (order + 1) (deviation (order + 1) there) d :=
    (compose_both_agree h hone hone hthere).congr fun i => by rw [hd, mul_one, mul_one]
  have hup := hdeviation.exp h.bounded h.bounded_rest hhead
  have hdown := ((hdeviation.scale (-1)).congr (g := fun i => -d i) fun i => by simp).exp h.bounded
    h.bounded_rest (headD_scale (-1) hhead)
  have hresidue := hdeviation.add (compose_both_agree h hup hdown hback)
  refine IsBigO.congr_left hresidue fun i => ?_
  have hvalue : value (z i) (t i) (residue (order + 1) there back) = 0 := value_of_all _ _ hzero
  rw [residue] at hvalue
  rw [hvalue, sub_zero]

end Jet

/-! ## Tables that undo each other -/

namespace Series

/-- The sine series with the coefficients of a table. -/
noncomputable def tableSum (rows : List (List ℚ)) (n angle : ℝ) : ℝ :=
  sinesFrom angle 1 (ofTable rows n)

/-- The rest of the parameter is as large as the parameter. -/
lemma norm_mul_exp_neg (n x : ℝ) : ‖(n : ℂ) * Complex.exp (-(x * Complex.I))‖ = |n| := by
  rw [← neg_mul, ← Complex.ofReal_neg, norm_mul, Complex.norm_exp_ofReal_mul_I, mul_one,
    Complex.norm_real, Real.norm_eq_abs]

/-- At an angle the parameter splits into a power of the unit and the rest. -/
lemma split_of_unit : Jet.Split (Filter.principal {p : ℝ × ℝ | |p.1| ≤ 1}) Prod.fst
    (fun p => Complex.exp ((2 * p.2 : ℝ) * Complex.I))
    (fun p => Complex.exp (-((2 * p.2 : ℝ) * Complex.I)))
    (fun p => p.1 * Complex.exp (-((2 * p.2 : ℝ) * Complex.I))) := by
  have hinverse (p : ℝ × ℝ) : Complex.exp (-((2 * p.2 : ℝ) * Complex.I)) *
      Complex.exp ((2 * p.2 : ℝ) * Complex.I) = 1 := by
    rw [← Complex.exp_add, neg_add_cancel, Complex.exp_zero]
  refine ⟨.of_bound 1 (.of_forall fun p => ?_),
    .of_bound 1 (Filter.eventually_principal.mpr fun p hp => ?_), fun p => ?_, hinverse⟩
  · rw [Complex.norm_exp_ofReal_mul_I, norm_one, mul_one]
  · rw [norm_mul_exp_neg, norm_one, mul_one]
    exact hp
  · rw [mul_assoc, hinverse, mul_one]

/-- **A table that undoes another one as power series undoes it at every angle**, up to the power
of the parameter the power series were cut off at. -/
theorem undo {order : ℕ} {there back : List (List ℚ)} (h : Jet.undoes (order + 1) there back) :
    ∃ K, ∀ n phi : ℝ, |n| ≤ 1 →
      |tableSum there n (2 * phi) + tableSum back n (2 * (phi + tableSum there n (2 * phi)))| ≤
        K * |n| ^ (order + 1) := by
  have hresidue := Jet.residue_isBigO split_of_unit h
    (d := fun p => 2 * Complex.I * (tableSum there p.1 (2 * p.2) : ℂ))
    fun p => sinesFrom_eq_powersFrom _ _ _
  -- The bound holds over all third flattenings and latitudes at once, so its constant depends on
  -- neither.
  obtain ⟨K, hK⟩ := isBigO_principal.mp hresidue
  refine ⟨K / 2, fun n phi hn => ?_⟩
  have hle := hK (n, phi) hn
  set delta := tableSum there n (2 * phi)
  have hangle : (2 * (phi + delta) : ℝ) * Complex.I =
      (2 * phi : ℝ) * Complex.I + 2 * Complex.I * delta := by
    push_cast
    ring
  have hback := sinesFrom_eq_powersFrom (2 * (phi + delta)) 1 (ofTable back n)
  rw [hangle, neg_add, Complex.exp_add, Complex.exp_add] at hback
  have hsum : 2 * Complex.I * (delta : ℂ) +
      2 * Complex.I * (sinesFrom (2 * (phi + delta)) 1 (ofTable back n) : ℂ) =
        ((2 * (delta + tableSum back n (2 * (phi + delta))) : ℝ) : ℂ) * Complex.I := by
    push_cast
    rw [tableSum]
    ring
  dsimp only at hle
  rw [← hback, hsum, norm_mul, Complex.norm_I, mul_one, Complex.norm_real, Real.norm_eq_abs,
    abs_mul, abs_two, norm_pow, norm_mul_exp_neg] at hle
  linarith

end Series

/-! ## The table for the authalic latitude -/

namespace Authalic

open Series

/-- The rational numbers as numbers of the library, for formulas without the elementary functions;
zero stands in for their values. -/
@[reducible] def rationalArith : Arith ℚ where
  decidableLT := inferInstance
  decidableLE := inferInstance
  beq x y := decide (x = y)
  ofNat n := n
  ofDecimal m e := m * (10 : ℚ) ^ e
  abs x := |x|
  mulAdd x y z := x * y + z
  signum x := if x < 0 then -1 else 1
  rem _ _ := 0
  sqrt _ := 0
  pow _ _ := 0
  log _ := 0
  sin _ := 0
  cos _ := 0
  asin _ := 0
  atanh _ := 0
  atan2 _ _ := 0
  hypot _ _ := 0
  pi := 0
  nan := 0
  infinity := 0
  isFinite _ := true

/-- The table at the rational numbers. -/
def rationalTable : Table ℚ := @table ℚ rationalArith

lemma forward_eq_ofTable (n : ℝ) :
    (coefficients n).forward = ofTable rationalTable.forward n := by
  have hrows : (table : Table ℝ).forward = rationalTable.forward.map (List.map (↑)) := by
    simp only [rationalTable, table, List.map_cons, List.map_nil, Rat.cast_div, Rat.cast_neg]
    norm_num
  rw [coefficients_forward, hrows, List.map_map]
  rfl

lemma inverse_eq_ofTable (n : ℝ) :
    (coefficients n).inverse = ofTable rationalTable.inverse n := by
  have hrows : (table : Table ℝ).inverse = rationalTable.inverse.map (List.map (↑)) := by
    simp only [rationalTable, table, List.map_cons, List.map_nil, Rat.cast_div, Rat.cast_neg]
    norm_num
  rw [coefficients_inverse, hrows, List.map_map]
  rfl

/-- Carried out in rational numbers, the composition of the two series vanishes up to the order of
the table, in either order of the two. -/
lemma inverse_undoes_forward : Jet.undoes 7 rationalTable.forward rationalTable.inverse := by
  decide +kernel

lemma forward_undoes_inverse : Jet.undoes 7 rationalTable.inverse rationalTable.forward := by
  decide +kernel

/-- **The two series undo each other to the full order of the table**, at every latitude alike. -/
theorem series_undo_each_other :
    ∃ K, ∀ n : ℝ, |n| < 0.01 → (∃ e : Ellipsoid ℝ, e.thirdFlattening = n) ∧
      ∀ e : Ellipsoid ℝ, e.thirdFlattening = n → ∀ poleIntegral phi : ℝ,
        let series := coefficients n
        let there (phi : ℝ) :=
          e.authalicLatitude series poleIntegral phi (Real.sin phi) (Real.cos phi)
        let back (xi : ℝ) := e.geographicLatitude series poleIntegral xi
        |back (there phi) - phi| ≤ K * |n| ^ 7 ∧ |there (back phi) - phi| ≤ K * |n| ^ 7 := by
  obtain ⟨K, hK⟩ := undo inverse_undoes_forward
  obtain ⟨L, hL⟩ := undo forward_undoes_inverse
  refine ⟨max K L, fun n hn => ⟨⟨⟨1, 2 * n / (1 + n)⟩, ?_⟩, ?_⟩⟩
  · have hpos : 0 < 1 + n := by linarith [(abs_lt.mp hn).1]
    simp only [Ellipsoid.thirdFlattening]
    field_simp
    ring
  · intro e he poleIntegral phi series there back
    have hseries : e.usesSeries = true := Ellipsoid.usesSeries_iff.mpr (he ▸ hn)
    have hone : |n| ≤ 1 := hn.le.trans (by norm_num)
    have hpower : 0 ≤ |n| ^ 7 := by positivity
    have hthere (phi : ℝ) : there phi = phi + tableSum rationalTable.forward n (2 * phi) := by
      rw [tableSum, ← forward_eq_ofTable]
      exact Ellipsoid.authalicLatitude_of_series hseries series poleIntegral phi
    have hback (xi : ℝ) : back xi = xi + tableSum rationalTable.inverse n (2 * xi) := by
      rw [tableSum, ← inverse_eq_ofTable]
      exact Ellipsoid.geographicLatitude_of_series hseries series poleIntegral xi
    constructor
    · rw [hback, hthere, add_assoc, add_sub_cancel_left]
      exact (hK n phi hone).trans (mul_le_mul_of_nonneg_right (le_max_left K L) hpower)
    · rw [hthere, hback, add_assoc, add_sub_cancel_left]
      exact (hL n phi hone).trans (mul_le_mul_of_nonneg_right (le_max_right K L) hpower)

/-- One axis shorter than the other by a three-hundredth. -/
theorem series_undo_each_other_three_hundredth :
    ∃ K : ℝ, ∀ phi : ℝ,
      let e : Ellipsoid ℝ := ⟨1, 1 / 300⟩
      |e.geographicLatitude e.authalicCoefficients e.poleIntegral (e.authalic phi) - phi| ≤
        K * (1 / 599) ^ 7 := by
  obtain ⟨K, hK⟩ := series_undo_each_other
  refine ⟨K, fun phi => ?_⟩
  intro e
  have hthird : |e.thirdFlattening| = 1 / 599 := by
    simp only [e, Ellipsoid.thirdFlattening]
    rw [abs_of_pos] <;> norm_num
  have hsmall : |e.thirdFlattening| < 0.01 := by
    rw [hthird]
    norm_num
  obtain ⟨hle, -⟩ := (hK _ hsmall).2 e rfl e.poleIntegral phi
  rw [hthird] at hle
  exact hle

end Authalic

end EqualArea
