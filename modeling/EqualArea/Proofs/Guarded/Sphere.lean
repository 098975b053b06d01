import EqualArea.Proofs.Guarded.Construction
import EqualArea.Proofs.Sphere.Mapping

/-!
# The mappings of the sphere in guarded numbers

* `Projection.half_hypot_mem`, `Projection.oblique_sine_mem`, `Projection.equatorial_sine_mem` —
  the arguments of the arc sines of the inverse mapping, which are not clamped, are sines.
* `Guarded.forwardSphere_of`, `Guarded.inverseSphere_of` — the mappings, at every point.
-/

namespace EqualArea

namespace Projection

open Sight (arc)

variable {F : Frame} {x y : ℝ}

/-- Half the distance of a point within the rim is a sine. -/
lemma half_hypot_mem (hle : ¬1 < Exact.hypot x y * 0.5) :
    Arith.hypot x y * 0.5 ∈ Set.Icc (-1 : ℝ) 1 := by
  have hnonneg := Exact.hypot_nonneg x y
  constructor
  · change -1 ≤ Exact.hypot x y * 0.5
    linarith
  · exact not_lt.mp hle

/-- What the inverse mapping takes the latitude from is the sine of the latitude of a sight. -/
theorem oblique_sine_mem (F : Frame) (hpos : 0 < Exact.hypot x y)
    (hrim : ¬1 < Exact.hypot x y * 0.5) :
    Real.cos (2 * Real.arcsin (Exact.hypot x y * 0.5)) * F.sin +
        y * Real.sin (2 * Real.arcsin (Exact.hypot x y * 0.5)) * F.cos / Exact.hypot x y ∈
      Set.Icc (-1 : ℝ) 1 := by
  have hle : Exact.hypot x y ≤ 2 := by linarith
  have harc : 2 * Real.arcsin (Exact.hypot x y * 0.5) = arc x y := by
    rw [arc]
    congr 2
    ring
  rw [harc, sinLatitude_ofImage F hpos hle]
  exact F.sinLatitude_mem _

lemma equatorial_sine_mem (hpos : 0 < Exact.hypot x y) (hrim : ¬1 < Exact.hypot x y * 0.5) :
    y * Real.sin (2 * Real.arcsin (Exact.hypot x y * 0.5)) / Exact.hypot x y ∈
      Set.Icc (-1 : ℝ) 1 := by
  have h := oblique_sine_mem Frame.equator hpos hrim
  simpa only [Frame.equator, mul_zero, mul_one, zero_add] using h

end Projection

namespace Guarded

open Projection

variable {v : Verdict} {p : Projection ℝ}

lemma scaledPoint_of (denominator easting northing : ℝ) :
    scaledPoint (of denominator : Guarded v) (of easting) (of northing) =
      (scaledPoint denominator easting northing).map (Coordinate.map of) := by
  unfold scaledPoint
  simp only [tolerance_of, of_le, ofNat_eq]
  by_cases h : denominator ≤ tolerance
  · rw [if_pos h, if_pos h]
    rfl
  · have hpos : 0 < denominator := tolerance_pos.trans (not_le.mp h)
    rw [if_neg h, if_neg h, of_div hpos.ne', of_sqrt (div_nonneg zero_le_two hpos.le)]
    rfl

theorem forwardSphere_of (p : Projection ℝ) (lambda phi : ℝ) :
    (p.map of : Projection (Guarded v)).forwardSphere (of lambda) (of phi) =
      (p.forwardSphere lambda phi).map (Coordinate.map of) := by
  have hfour : (4 : ℝ) ≠ 0 := four_ne_zero
  unfold forwardSphere
  cases h : p.aspect with
  | equatorial =>
    simp only [Projection.map, h, of_sin, of_cos, of_mul, of_add, ofNat_eq, scaledPoint_of]
  | oblique =>
    simp only [Projection.map, h, of_sin, of_cos, of_mul, of_add, of_sub, ofNat_eq, scaledPoint_of]
  | northPolar =>
    simp only [Projection.map, h, of_sin, of_cos, of_abs, of_mul, of_add, of_sub,
      of_neg, ofNat_eq, ofScientific_eq, pi_eq, tolerance_of, of_lt, of_div hfour]
    split_ifs <;> rfl
  | southPolar =>
    simp only [Projection.map, h, of_sin, of_cos, of_abs, of_mul, of_add, of_sub,
      ofNat_eq, ofScientific_eq, pi_eq, tolerance_of, of_lt, of_div hfour]
    split_ifs <;> rfl

lemma direction_of (x y : ℝ) : (direction (of x) (of y) : Guarded v) = of (direction x y) := by
  unfold direction
  simp only [of_beq, ofNat_eq, of_atan2]
  split_ifs <;> rfl

/-- The inverse mapping, wherever it is asked. -/
theorem inverseSphere_of
    (hframe : p.aspect = .equatorial ∨ p.aspect = .oblique → ∃ F, p.HasFrame F) (x y : ℝ) :
    (p.map of : Projection (Guarded v)).inverseSphere (of x) (of y) =
      (p.inverseSphere x y).map (Coordinate.map of) := by
  unfold inverseSphere
  simp only [of_hypot, of_mul, ofNat_eq, ofScientific_eq, Exact.ofScientific_eq, of_lt,
    tolerance_of, of_le]
  split_ifs with hrim hcentre
  · rfl
  · have hhalf := half_hypot_mem hrim
    cases h : p.aspect <;> simp only [Projection.map, h, of_asin hhalf, of_sin, of_cos, of_atan2,
      of_mul, of_sub, of_neg, quarterTurn_eq, direction_of] <;> rfl
  -- Away from the centre the distance can be divided by.
  have hhalf := half_hypot_mem hrim
  have hpos : (0 : ℝ) < Arith.hypot x y := tolerance_pos.trans (not_le.mp hcentre)
  cases h : p.aspect with
  | northPolar =>
    simp only [Projection.map, h, of_asin hhalf, of_mul, of_sub, of_neg, of_atan2, quarterTurn_eq]
    rfl
  | southPolar =>
    simp only [Projection.map, h, of_asin hhalf, of_mul, of_sub, of_atan2, quarterTurn_eq]
    rfl
  | equatorial =>
    have hsine : y * Arith.sin (2 * Arith.asin (Arith.hypot x y * 0.5)) / Arith.hypot x y ∈
        Set.Icc (-1 : ℝ) 1 := equatorial_sine_mem hpos hrim
    simp only [Projection.map, h, of_asin hhalf, of_sin, of_cos, of_mul, direction_of,
      of_div hpos.ne', of_asin hsine]
    rfl
  | oblique =>
    obtain ⟨F, hF⟩ := hframe (.inr h)
    have hsine : Arith.cos (2 * Arith.asin (Arith.hypot x y * 0.5)) * p.sinCentre +
        y * Arith.sin (2 * Arith.asin (Arith.hypot x y * 0.5)) * p.cosCentre / Arith.hypot x y ∈
          Set.Icc (-1 : ℝ) 1 :=
      oblique_sine_mem ⟨p.sinCentre, p.cosCentre, hF.unit h⟩ hpos hrim
    simp only [Projection.map, h, of_asin hhalf, of_sin, of_cos, of_add, of_sub, of_mul,
      direction_of, of_div hpos.ne', of_asin hsine]
    rfl

end Guarded

end EqualArea
