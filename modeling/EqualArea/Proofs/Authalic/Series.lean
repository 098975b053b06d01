import EqualArea.Authalic.Table
import EqualArea.Proofs.Exact.Arith

/-!
# Sine series over the reals

* `Series.sinesFrom` — a sum of multiples of the sines of `k x`, `(k + 1) x`, ….
* `Series.clenshaw_mul_sin`, `Series.sineSumOfTrig_eq` — Clenshaw's recurrence computes it.
* `Series.sinesFrom_pi_div_two` — its value at a right angle.
* `Series.weightFrom`, `Series.abs_sinesFrom_le`, `Series.abs_sinesFrom_sub_le` — it is at most a
  multiple of `|sin x|`, and changes at most as fast as that multiple tells.
* `Authalic.weight_forward_lt` — that multiple, for the series of the authalic latitude.
* `Authalic.lt_sinesFrom_inverse` — on a very flat ellipsoid the series of the way back leads far
  away from the equator.

**Design.**  The sum starts at any multiple of the angle, since the recurrence is about the sums
from the first and from the zeroth multiple on.  The bound by `|sin x|`, and not by one, is what
keeps a pole at the pole.
-/

namespace EqualArea

namespace Series

/-- The sum of the multiples of `sin (k x)`, `sin ((k + 1) x)`, … by the members of a list. -/
noncomputable def sinesFrom (x : ℝ) (k : ℕ) : List ℝ → ℝ
  | [] => 0
  | c :: rest => c * Real.sin (k * x) + sinesFrom x (k + 1) rest

lemma sinesFrom_nil (x : ℝ) (k : ℕ) : sinesFrom x k [] = 0 := rfl

/-- The three-term identity of the sine, term by term. -/
lemma sinesFrom_add_sinesFrom (x : ℝ) (k : ℕ) (cs : List ℝ) :
    sinesFrom x k cs + sinesFrom x (k + 2) cs = 2 * Real.cos x * sinesFrom x (k + 1) cs := by
  induction cs generalizing k with
  | nil => simp [sinesFrom]
  | cons c rest ih =>
    have hsin : Real.sin (k * x) + Real.sin ((k + 2 : ℕ) * x) =
        2 * Real.cos x * Real.sin ((k + 1 : ℕ) * x) := by
      have hlow : (k : ℝ) * x = (k + 1 : ℕ) * x - x := by push_cast; ring
      have hhigh : ((k + 2 : ℕ) : ℝ) * x = (k + 1 : ℕ) * x + x := by push_cast; ring
      rw [hlow, hhigh, Real.sin_sub, Real.sin_add]
      ring
    have hrest := ih (k + 1)
    simp only [sinesFrom]
    linear_combination c * hsin + hrest

/-- The last two terms of the recurrence carry the sums from the first and from the zeroth
multiple on. -/
theorem clenshaw_mul_sin (x : ℝ) (cs : List ℝ) :
    (clenshaw (2 * Real.cos x) cs).1 * Real.sin x = sinesFrom x 1 cs ∧
      (clenshaw (2 * Real.cos x) cs).2 * Real.sin x = sinesFrom x 0 cs := by
  induction cs with
  | nil => simp [sinesFrom]
  | cons c rest ih =>
    obtain ⟨hfirst, hzeroth⟩ := ih
    have hterms := sinesFrom_add_sinesFrom x 0 rest
    simp only [zero_add] at hterms
    rw [clenshaw_cons, Exact.mulAdd_eq]
    constructor
    · simp only [sinesFrom, Nat.cast_one, one_mul]
      linear_combination 2 * Real.cos x * hfirst - hzeroth - hterms
    · simp only [sinesFrom, Nat.cast_zero, zero_mul, Real.sin_zero, mul_zero, zero_add]
      exact hfirst

theorem sineSumOfTrig_eq (x : ℝ) (cs : List ℝ) :
    sineSumOfTrig (Real.sin x) (Real.cos x) cs = sinesFrom x 1 cs := by
  rw [← (clenshaw_mul_sin x cs).1, mul_comm]
  rfl

/-! ## At a right angle -/

/-- Two members later, the sines of the multiples of a right angle have the other sign. -/
lemma sinesFrom_pi_div_two_add_two (k : ℕ) (cs : List ℝ) :
    sinesFrom (Real.pi / 2) (k + 2) cs = -sinesFrom (Real.pi / 2) k cs := by
  induction cs generalizing k with
  | nil => simp [sinesFrom]
  | cons c rest ih =>
    have hsin : Real.sin ((k + 2 : ℕ) * (Real.pi / 2)) = -Real.sin (k * (Real.pi / 2)) := by
      rw [← Real.sin_add_pi]
      congr 1
      push_cast
      ring
    rw [sinesFrom, sinesFrom, hsin, Nat.add_right_comm k 2 1, ih (k + 1)]
    ring

/-- At a right angle only every other member of a sine series counts, with alternating sign. -/
lemma sinesFrom_pi_div_two (c d : ℝ) (rest : List ℝ) :
    sinesFrom (Real.pi / 2) 1 (c :: d :: rest) = c - sinesFrom (Real.pi / 2) 1 rest := by
  have htwice : ((1 + 1 : ℕ) : ℝ) * (Real.pi / 2) = Real.pi := by
    push_cast
    ring
  rw [sinesFrom, sinesFrom, sinesFrom_pi_div_two_add_two, htwice, Real.sin_pi, Nat.cast_one,
    one_mul, Real.sin_pi_div_two]
  ring

/-! ## Bounds -/

/-- The sum of the magnitudes, each as often as its place in the series tells. -/
noncomputable def weightFrom (k : ℕ) : List ℝ → ℝ
  | [] => 0
  | c :: rest => k * |c| + weightFrom (k + 1) rest

lemma abs_sin_nat_mul_le (k : ℕ) (x : ℝ) : |Real.sin (k * x)| ≤ k * |Real.sin x| := by
  induction k with
  | zero => simp
  | succ k ih =>
    have hsplit : Real.sin ((k + 1 : ℕ) * x) =
        Real.sin (k * x) * Real.cos x + Real.cos (k * x) * Real.sin x := by
      rw [← Real.sin_add]
      congr 1
      push_cast
      ring
    have hleft : |Real.sin (k * x) * Real.cos x| ≤ k * |Real.sin x| := by
      rw [abs_mul]
      exact (mul_le_of_le_one_right (abs_nonneg _) (Real.abs_cos_le_one x)).trans ih
    have hright : |Real.cos (k * x) * Real.sin x| ≤ |Real.sin x| := by
      rw [abs_mul]
      exact mul_le_of_le_one_left (abs_nonneg _) (Real.abs_cos_le_one _)
    calc |Real.sin ((k + 1 : ℕ) * x)|
        ≤ |Real.sin (k * x) * Real.cos x| + |Real.cos (k * x) * Real.sin x| := by
          rw [hsplit]
          exact abs_add_le _ _
      _ ≤ (k + 1 : ℕ) * |Real.sin x| := by push_cast; linarith

/-- A sine series vanishes with the sine of its angle. -/
theorem abs_sinesFrom_le (x : ℝ) (k : ℕ) (cs : List ℝ) :
    |sinesFrom x k cs| ≤ weightFrom k cs * |Real.sin x| := by
  induction cs generalizing k with
  | nil => simp [sinesFrom, weightFrom]
  | cons c rest ih =>
    have hterm : |c * Real.sin (k * x)| ≤ k * |c| * |Real.sin x| := by
      rw [abs_mul]
      calc |c| * |Real.sin (k * x)| ≤ |c| * (k * |Real.sin x|) :=
            mul_le_mul_of_nonneg_left (abs_sin_nat_mul_le k x) (abs_nonneg c)
        _ = k * |c| * |Real.sin x| := by ring
    calc |sinesFrom x k (c :: rest)|
        ≤ |c * Real.sin (k * x)| + |sinesFrom x (k + 1) rest| := abs_add_le _ _
      _ ≤ k * |c| * |Real.sin x| + weightFrom (k + 1) rest * |Real.sin x| :=
          add_le_add hterm (ih (k + 1))
      _ = weightFrom k (c :: rest) * |Real.sin x| := by rw [weightFrom]; ring

/-- A sine series changes at most as fast as its weight tells. -/
theorem abs_sinesFrom_sub_le (x y : ℝ) (k : ℕ) (cs : List ℝ) :
    |sinesFrom x k cs - sinesFrom y k cs| ≤ weightFrom k cs * |x - y| := by
  induction cs generalizing k with
  | nil => simp [sinesFrom, weightFrom]
  | cons c rest ih =>
    have hterm : |c * (Real.sin (k * x) - Real.sin (k * y))| ≤ k * |c| * |x - y| := by
      rw [abs_mul]
      calc |c| * |Real.sin (k * x) - Real.sin (k * y)| ≤ |c| * |k * x - k * y| :=
            mul_le_mul_of_nonneg_left (Real.abs_sin_sub_sin_le _ _) (abs_nonneg c)
        _ = k * |c| * |x - y| := by
            rw [← mul_sub, abs_mul, Nat.abs_cast]
            ring
    have hsplit : sinesFrom x k (c :: rest) - sinesFrom y k (c :: rest) =
        c * (Real.sin (k * x) - Real.sin (k * y)) +
          (sinesFrom x (k + 1) rest - sinesFrom y (k + 1) rest) := by
      rw [sinesFrom, sinesFrom]
      ring
    calc |sinesFrom x k (c :: rest) - sinesFrom y k (c :: rest)|
        ≤ |c * (Real.sin (k * x) - Real.sin (k * y))| +
            |sinesFrom x (k + 1) rest - sinesFrom y (k + 1) rest| := by
          rw [hsplit]
          exact abs_add_le _ _
      _ ≤ k * |c| * |x - y| + weightFrom (k + 1) rest * |x - y| := add_le_add hterm (ih (k + 1))
      _ = weightFrom k (c :: rest) * |x - y| := by rw [weightFrom]; ring

/-- The leading coefficient may as well be added to a zero multiple of the argument. -/
lemma horner_cons (x c : ℝ) (rest : List ℝ) : horner x (c :: rest) = horner x rest * x + c := by
  cases rest with
  | nil => simp
  | cons d rest => rfl

/-- Up to an argument of `m`, a polynomial is at most the one of the coefficients' magnitudes
at `m`. -/
lemma abs_horner_le {m x : ℝ} (hx : |x| ≤ m) (cs : List ℝ) :
    |horner x cs| ≤ horner m (cs.map (|·|)) := by
  induction cs with
  | nil => simp
  | cons c rest ih =>
    rw [List.map_cons, horner_cons, horner_cons]
    calc |horner x rest * x + c|
        ≤ |horner x rest| * |x| + |c| := by
          rw [← abs_mul]
          exact abs_add_le _ _
      _ ≤ horner m (rest.map (|·|)) * m + |c| :=
          add_le_add_left (mul_le_mul ih hx (abs_nonneg x) ((abs_nonneg _).trans ih)) _

/-- The polynomials of a table are at most the argument times the polynomials of the magnitudes in
their rows. -/
lemma weightFrom_map_parametric_le {m n : ℝ} (hn : |n| ≤ m) (k : ℕ) (rows : List (List ℝ)) :
    weightFrom k (rows.map (parametric n)) ≤
      |n| * weightFrom k (rows.map fun row => horner m (row.map (|·|))) := by
  induction rows generalizing k with
  | nil => simp [weightFrom]
  | cons row rows ih =>
    have hhorner := abs_horner_le hn row
    have hrow : |parametric n row| ≤ |n| * |horner m (row.map (|·|))| := by
      rw [parametric, abs_mul, abs_of_nonneg ((abs_nonneg _).trans hhorner)]
      exact mul_le_mul_of_nonneg_left hhorner (abs_nonneg n)
    have hk : (0 : ℝ) ≤ k := Nat.cast_nonneg k
    simp only [List.map_cons, weightFrom]
    calc k * |parametric n row| + weightFrom (k + 1) (rows.map (parametric n))
        ≤ k * (|n| * |horner m (row.map (|·|))|) +
            |n| * weightFrom (k + 1) (rows.map fun row => horner m (row.map (|·|))) :=
          add_le_add (mul_le_mul_of_nonneg_left hrow hk) (ih (k + 1))
      _ = |n| * (k * |horner m (row.map (|·|))| +
            weightFrom (k + 1) (rows.map fun row => horner m (row.map (|·|)))) := by ring

end Series

namespace Authalic

open Series

/-- The magnitudes in the table of the way forth. -/
lemma weight_table_lt :
    weightFrom 1 ((table : Table ℝ).forward.map fun row => horner 1 (row.map (|·|))) < 13 := by
  simp only [table, List.map_cons, List.map_nil, horner_cons_cons, horner_singleton, weightFrom]
  norm_num

/-- On ellipsoids that are converted by the series alone, the series is small. -/
theorem weight_forward_lt {n : ℝ} (hn : |n| < 0.01) :
    weightFrom 1 (coefficients n).forward < 0.13 := by
  have hle := weightFrom_map_parametric_le (m := 1) (hn.le.trans (by norm_num)) 1
    (table : Table ℝ).forward
  have htable := weight_table_lt
  have hnonneg := abs_nonneg n
  calc weightFrom 1 (coefficients n).forward ≤ _ := hle
    _ < 0.13 := by nlinarith

/-! ## The way back -/

/-- The series at an eighth of a turn, where it is a single polynomial of the third flattening. -/
lemma lt_sinesFrom_inverse {n : ℝ} (hn : 0.61 ≤ n) :
    0.79 < sinesFrom (2 * (Real.pi / 4)) 1 (coefficients n).inverse := by
  obtain ⟨t, ht, rfl⟩ : ∃ t : ℝ, 0 ≤ t ∧ n = 0.61 + t := ⟨n - 0.61, by linarith, by ring⟩
  have hangle : 2 * (Real.pi / 4) = Real.pi / 2 := by ring
  simp only [hangle, coefficients_inverse, table, List.map_cons, List.map_nil,
    sinesFrom_pi_div_two, sinesFrom_nil, parametric, horner_cons_cons, horner_singleton,
    Exact.mulAdd_eq]
  -- Expanded at the smallest third flattening, the polynomial has positive coefficients only.
  rw [← sub_pos]
  ring_nf
  positivity

end Authalic

end EqualArea
