import EqualArea.Proofs.Authalic.Latitude

/-!
# The sums behind the series

Both evaluators recurse on a list of coefficients, and the coefficients of the series for the
authalic latitude are themselves values of polynomials, kept in one buffer.  Unrolled, all of it is
one sum over the places of a table.

* `Series.sum_places_cons` — a sum over the places of a list, from its first member on.
* `Series.horner_eq_sum`, `Series.parametric_eq_sum` — polynomials.
* `Series.sinesFrom_map_eq_sum` — sine series.
* `Series.sinesFrom_parametric_eq_sum` — a sine series whose coefficients are polynomials.
* `Authalic.table_shape` — the table has as many rows, and as many columns, as a series has terms.
* `Authalic.series_are_sums` — what the evaluators and the two conversions of a latitude compute.

**Design.**  A sum runs over the places of its list, so no member is read beyond the end of the list
and none is left out.  Places are counted from zero, and the multiples of an angle and the powers of
a parameter without a constant term from one.
-/

namespace EqualArea

namespace Series

variable {β : Type}

/-- The sum over the places of a list splits off the first place. -/
lemma sum_places_cons (f : β → ℕ → ℝ) (b : β) (bs : List β) :
    ∑ i : Fin (b :: bs).length, f (b :: bs)[i] i =
      f b 0 + ∑ i : Fin bs.length, f bs[i] (i + 1) :=
  Fin.sum_univ_succ fun i : Fin (bs.length + 1) => f (b :: bs)[i] i

/-! ## Polynomials -/

theorem horner_eq_sum (x : ℝ) (cs : List ℝ) :
    horner x cs = ∑ i : Fin cs.length, cs[i] * x ^ (i : ℕ) := by
  induction cs with
  | nil => simp
  | cons c rest ih =>
    rw [horner_cons, ih, sum_places_cons (fun c i => c * x ^ i), Finset.sum_mul, add_comm]
    simp only [pow_zero, mul_one, pow_succ, mul_assoc]

lemma parametric_eq_sum (n : ℝ) (row : List ℝ) :
    parametric n row = ∑ j : Fin row.length, row[j] * n ^ (j + 1 : ℕ) := by
  rw [parametric, horner_eq_sum, Finset.mul_sum]
  refine Finset.sum_congr rfl fun j _ => ?_
  ring

/-! ## Sine series -/

theorem sinesFrom_map_eq_sum (x : ℝ) (k : ℕ) (f : β → ℝ) (bs : List β) :
    sinesFrom x k (bs.map f) =
      ∑ i : Fin bs.length, f bs[i] * Real.sin ((i + k : ℕ) * x) := by
  induction bs generalizing k with
  | nil => simp [sinesFrom]
  | cons b bs ih =>
    rw [List.map_cons, sinesFrom, ih, sum_places_cons fun b i => f b * Real.sin ((i + k : ℕ) * x)]
    simp only [zero_add, Nat.add_right_comm, Nat.add_assoc]

/-- A sine series whose coefficients are polynomials of a parameter is a sum over the rows and the
columns of its table. -/
theorem sinesFrom_parametric_eq_sum (n x : ℝ) (rows : List (List ℝ)) :
    sinesFrom (2 * x) 1 (rows.map (parametric n)) =
      ∑ i : Fin rows.length, ∑ j : Fin rows[i].length,
        rows[i][j] * n ^ (j + 1 : ℕ) * Real.sin (2 * (i + 1 : ℕ) * x) := by
  rw [sinesFrom_map_eq_sum]
  refine Finset.sum_congr rfl fun i _ => ?_
  rw [parametric_eq_sum, Finset.sum_mul, mul_left_comm, ← mul_assoc]

end Series

/-! ## The series for the authalic latitude -/

namespace Authalic

open Series

/-- Either half of the buffer is filled by as many rows as it has places. -/
lemma table_shape : ∀ rows ∈ [(table : Table ℝ).forward, table.inverse],
    rows.length = order ∧ ∀ row ∈ rows, row.length = order := by
  simp [table, order]

/-- **The evaluators compute the sums they stand for**, whatever the number of coefficients, and
on ellipsoids that are converted by the series alone the two conversions of a latitude are sums over
the whole table: the factor in row `i` and column `j` belongs to the `j`-th power of the third
flattening and to the sine of the `2 i`-fold latitude. -/
theorem series_are_sums :
    (∀ (x : ℝ) (cs : List ℝ),
      sineSumOfTrig (Real.sin x) (Real.cos x) cs = sineSum x cs ∧
        sineSum x cs = ∑ i : Fin cs.length, cs[i] * Real.sin ((i + 1 : ℕ) * x)) ∧
      (∀ (x : ℝ) (cs : List ℝ), horner x cs = ∑ i : Fin cs.length, cs[i] * x ^ (i : ℕ)) ∧
      (∀ rows ∈ [(table : Table ℝ).forward, table.inverse],
        rows.length = 6 ∧ ∀ row ∈ rows, row.length = 6) ∧
      ∀ e : Ellipsoid ℝ, |e.thirdFlattening| < 0.01 → ∀ poleIntegral phi xi : ℝ,
        let n := e.thirdFlattening
        let series := e.authalicCoefficients
        let sum (rows : List (List ℝ)) (latitude : ℝ) :=
          ∑ i : Fin rows.length, ∑ j : Fin rows[i].length,
            rows[i][j] * n ^ (j + 1 : ℕ) * Real.sin (2 * (i + 1 : ℕ) * latitude)
        e.authalicLatitude series poleIntegral phi (Real.sin phi) (Real.cos phi) =
            phi + sum table.forward phi ∧
          e.geographicLatitude series poleIntegral xi = xi + sum table.inverse xi := by
  refine ⟨fun x cs => ⟨rfl, ?_⟩, horner_eq_sum, table_shape, fun e hn poleIntegral phi xi => ?_⟩
  · have hsum := sinesFrom_map_eq_sum x 1 id cs
    rw [List.map_id] at hsum
    exact (sineSumOfTrig_eq x cs).trans hsum
  · intro n series sum
    have hseries : e.usesSeries = true := Ellipsoid.usesSeries_iff.mpr hn
    have hforward : series.forward = table.forward.map (parametric n) := coefficients_forward n
    have hinverse : series.inverse = table.inverse.map (parametric n) := coefficients_inverse n
    constructor
    · rw [Ellipsoid.authalicLatitude_of_series hseries, hforward, sinesFrom_parametric_eq_sum]
    · rw [Ellipsoid.geographicLatitude_of_series hseries, hinverse, sinesFrom_parametric_eq_sum]

/-- A third flattening of one two-hundredth, at forty-five degrees, where every other row of the
table counts. -/
theorem series_are_sums_two_hundredth :
    let e : Ellipsoid ℝ := ⟨1, 2 / 201⟩
    let series := e.authalicCoefficients
    sineSum (Real.pi / 6) [1, 2, 3] = 7 / 2 + Real.sqrt 3 ∧
      horner (-2 : ℝ) [1, 2, 3] = 9 ∧
      |e.thirdFlattening| < 0.01 ∧
      |e.authalicLatitude series e.poleIntegral (Real.pi / 4) (Real.sin (Real.pi / 4))
        (Real.cos (Real.pi / 4)) - (Real.pi / 4 - 1 / 150)| < 1e-5 ∧
      |e.geographicLatitude series e.poleIntegral (Real.pi / 4) - (Real.pi / 4 + 1 / 150)| <
        1e-5 := by
  intro e series
  obtain ⟨hsines, hhorner, -, hlatitudes⟩ := series_are_sums
  have hn : e.thirdFlattening = 1 / 200 := by norm_num [e, Ellipsoid.thirdFlattening]
  have hsmall : |e.thirdFlattening| < 0.01 := by norm_num [hn, abs_lt]
  obtain ⟨hforward, hinverse⟩ :=
    hlatitudes e hsmall e.poleIntegral (Real.pi / 4) (Real.pi / 4)
  have hright : 2 * (Real.pi / 4) = Real.pi / 2 := by ring
  simp only [← sinesFrom_parametric_eq_sum, hn, hright] at hforward hinverse
  simp only [table, List.map_cons, List.map_nil, sinesFrom_pi_div_two, sinesFrom_nil, parametric,
    horner_cons_cons, horner_singleton] at hforward hinverse
  refine ⟨?_, ?_, hsmall, ?_, ?_⟩
  · rw [(hsines _ _).2]
    change ∑ i : Fin 3, [1, 2, 3][i] * Real.sin ((i + 1 : ℕ) * (Real.pi / 6)) = _
    have hsecond : (2 : ℝ) * (Real.pi / 6) = Real.pi / 3 := by ring
    have hthird : (3 : ℝ) * (Real.pi / 6) = Real.pi / 2 := by ring
    norm_num [Fin.sum_univ_three, hsecond, hthird]
    ring
  · rw [hhorner]
    change ∑ i : Fin 3, [1, 2, 3][i] * (-2 : ℝ) ^ (i : ℕ) = 9
    norm_num [Fin.sum_univ_three]
  · rw [hforward]
    norm_num [abs_lt]
  · rw [hinverse]
    norm_num [abs_lt]

end Authalic

end EqualArea
