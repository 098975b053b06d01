import EqualArea.Angle
import EqualArea.Proofs.Exact.Arith

/-!
# Angles over the reals

* `Exact.rem_mem`, `Exact.exists_rem_eq` — the truncated remainder has the sign of the dividend, is
  smaller than the divisor, and differs from the dividend by a multiple of the divisor.
* `Angle.wrap_mem`, `Angle.exists_wrap_eq` — wrapping an angle gives the same direction, within
  half a turn of zero.
-/

namespace EqualArea

namespace Exact

lemma rem_of_nonneg {x y : ℝ} (h : 0 ≤ x / y) : rem x y = x - y * ⌊x / y⌋ := by
  rw [rem, if_pos h]

lemma rem_of_neg {x y : ℝ} (h : x / y < 0) : rem x y = x - y * ⌈x / y⌉ := by
  rw [rem, if_neg (not_le.mpr h)]

/-- On either side of zero the remainder stays on the side of the dividend. -/
lemma rem_mem {x y : ℝ} (hy : 0 < y) :
    0 ≤ x ∧ rem x y ∈ Set.Ico 0 y ∨ x < 0 ∧ rem x y ∈ Set.Ioc (-y) 0 := by
  have hquotient : y * (x / y) = x := mul_div_cancel₀ x hy.ne'
  rcases le_or_gt 0 x with hx | hx
  · have hle := Int.floor_le (x / y)
    have hlt := Int.lt_floor_add_one (x / y)
    rw [rem_of_nonneg (div_nonneg hx hy.le)]
    exact .inl ⟨hx, by nlinarith, by nlinarith⟩
  · have hle := Int.le_ceil (x / y)
    have hlt := Int.ceil_lt_add_one (x / y)
    rw [rem_of_neg (div_neg_of_neg_of_pos hx hy)]
    exact .inr ⟨hx, by nlinarith, by nlinarith⟩

lemma exists_rem_eq (x y : ℝ) : ∃ k : ℤ, rem x y = x + k * y := by
  rcases le_or_gt 0 (x / y) with h | h
  · refine ⟨-⌊x / y⌋, ?_⟩
    rw [rem_of_nonneg h]
    push_cast
    ring
  · refine ⟨-⌈x / y⌉, ?_⟩
    rw [rem_of_neg h]
    push_cast
    ring

end Exact

namespace Angle

/-- The half turn goes back on the side of the remainder. -/
lemma wrap_eq (angle : ℝ) :
    wrap angle = if Exact.rem (angle + Real.pi) (2 * Real.pi) < 0 then
        Exact.rem (angle + Real.pi) (2 * Real.pi) + Real.pi
      else Exact.rem (angle + Real.pi) (2 * Real.pi) - Real.pi := by
  have hwrap : wrap angle = Exact.rem (angle + Real.pi) (2 * Real.pi) -
      Real.pi * Exact.signum (Exact.rem (angle + Real.pi) (2 * Real.pi)) := rfl
  rw [hwrap, Exact.signum]
  split_ifs <;> ring

/-- A wrapped angle is within half a turn of zero; the half turn itself is negative. -/
theorem wrap_mem (angle : ℝ) : wrap angle ∈ Set.Ico (-Real.pi) Real.pi := by
  have hpi := Real.pi_pos
  rw [wrap_eq]
  rcases Exact.rem_mem (x := angle + Real.pi) Real.two_pi_pos with ⟨-, hlow, hhigh⟩ | ⟨-, hlow, hhigh⟩
  all_goals split_ifs with hneg <;> constructor <;> linarith

/-- A wrapped angle has the direction of the angle. -/
theorem exists_wrap_eq (angle : ℝ) : ∃ k : ℤ, wrap angle = angle + k * (2 * Real.pi) := by
  obtain ⟨k, hk⟩ := Exact.exists_rem_eq (angle + Real.pi) (2 * Real.pi)
  rw [wrap_eq, hk]
  split_ifs with hneg
  · refine ⟨k + 1, ?_⟩
    push_cast
    ring
  · exact ⟨k, by ring⟩

end Angle

end EqualArea
