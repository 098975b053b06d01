import EqualArea.Proofs.Ellipsoid.Mapping
import EqualArea.Proofs.Guarded.Construction

/-!
# The mappings of the ellipsoid in guarded numbers

* `Projection.oblique_scale_nonneg`, `Projection.equatorial_scale_nonneg` — what the scale of an
  oblique or equatorial aspect is taken of is never negative.
* `Guarded.forwardEllipsoid_of`, `Guarded.inverseEllipsoid_of` — the mappings, at every point.
-/

namespace EqualArea

namespace Projection

/-- The height of a sight above the antipode. -/
theorem oblique_scale_nonneg (F : Frame) (lambda xi : ℝ) :
    0 ≤ 1 + F.sin * Real.sin xi + F.cos * Real.cos xi * Real.cos lambda := by
  have h := (F.sight lambda xi).neg_one_le_up
  simp only [Frame.sight] at h
  linarith

lemma equatorial_scale_nonneg (lambda xi : ℝ) : 0 ≤ 1 + Real.cos xi * Real.cos lambda := by
  have h := oblique_scale_nonneg Frame.equator lambda xi
  simpa only [Frame.equator, zero_mul, one_mul, add_zero] using h

end Projection

namespace Guarded

open Projection

variable {v : Verdict} {p : Projection ℝ} {s : Spheroid ℝ} {e : Ellipsoid ℝ}

/-! ## Forward -/

lemma radialScale_of {b : ℝ} (hb : 0 ≤ b) :
    radialScale (of b : Guarded v) = (radialScale b).map of := by
  unfold radialScale
  simp only [of_abs, tolerance_of, of_lt, ofNat_eq]
  split_ifs with h
  · rfl
  · have hne : b ≠ 0 := by
      rintro rfl
      exact h (by simpa using tolerance_pos)
    rw [of_div hne, of_sqrt (div_nonneg zero_le_two hb)]
    rfl

lemma polarRadius_of (fromAntipode squared : ℝ) :
    polarRadius (of fromAntipode : Guarded v) (of squared) =
      (polarRadius fromAntipode squared).map (Option.map of) := by
  have hlimit : (poleLimit : Guarded v) = of poleLimit := rfl
  unfold polarRadius
  simp only [of_abs, tolerance_of, of_lt, hlimit]
  split_ifs with hantipode hpole
  · rfl
  · rfl
  · rw [of_sqrt (poleLimit_pos.le.trans (not_lt.mp hpole))]
    rfl

/-- The forward mapping, wherever it is asked. -/
theorem forwardEllipsoid_of (he : e.Flattened) (hs : p.spheroid? = some s) (hof : s.Of e)
    (hframe : p.aspect = .equatorial ∨ p.aspect = .oblique → ∃ F, p.HasFrame F)
    (lambda phi : ℝ) :
    (p.map of : Projection (Guarded v)).forwardEllipsoid (of lambda) (of phi) =
      (p.forwardEllipsoid lambda phi).map (Coordinate.map of) := by
  have hs' : (p.map of : Projection (Guarded v)).spheroid? = some (s.map of) := by
    simp [Projection.map, hs]
  unfold forwardEllipsoid
  simp only [hs, hs', spheroid_authalicLatitude_of he hof, of_sin, of_cos]
  cases h : p.aspect with
  | northPolar =>
    simp only [Projection.map, Spheroid.map, h, quarterTurn_eq, of_add, of_sub, of_mul,
      polarRadius_of]
    rcases polarRadius _ _ with refusal | _ | rho <;> rfl
  | southPolar =>
    simp only [Projection.map, Spheroid.map, h, quarterTurn_eq, of_add, of_sub, of_mul,
      polarRadius_of]
    rcases polarRadius _ _ with refusal | _ | rho <;> rfl
  | equatorial =>
    have hscale : (0 : ℝ) ≤ 1 + Arith.cos (s.authalicLatitude phi) * Arith.cos lambda :=
      equatorial_scale_nonneg lambda _
    simp only [Projection.map, Spheroid.map, h, ofNat_eq, of_add, of_mul, radialScale_of hscale]
    rcases radialScale _ with refusal | k <;> rfl
  | oblique =>
    obtain ⟨F, hF⟩ := hframe (.inr h)
    have hscale : 0 ≤ 1 + p.sinCentre * Arith.sin (s.authalicLatitude phi) +
        p.cosCentre * Arith.cos (s.authalicLatitude phi) * Arith.cos lambda :=
      oblique_scale_nonneg ⟨p.sinCentre, p.cosCentre, hF.unit h⟩ lambda _
    simp only [Projection.map, Spheroid.map, h, ofNat_eq, of_add, of_mul, of_sub,
      radialScale_of hscale]
    rcases radialScale _ with refusal | k <;> rfl

/-! ## Inverse -/

/-- The bearing with other numbers. -/
def mapBearing {α β : Type} (f : α → β) (b : Bearing α) : Bearing β :=
  ⟨f b.sinAuthalic, f b.east, f b.north⟩

lemma bearingOfDisc_of (hfitted : s.Fitted) (p : Projection ℝ) (x y : ℝ) :
    (p.map of : Projection (Guarded v)).bearingOfDisc (s.map of) (of x) (of y) =
      (p.bearingOfDisc s x y).map (Option.map (mapBearing of)) := by
  have hradius := hfitted.radius_pos
  unfold bearingOfDisc
  simp only [Projection.map, Spheroid.map, of_div hfitted.stretch_ne_zero, of_mul, of_hypot,
    ofScientific_eq, Exact.ofScientific_eq, of_div hradius.ne', tolerance_of, ofNat_eq, of_lt]
  split_ifs with hcentre hrim hoblique
  · rfl
  · rfl
  -- The equatorial and the oblique aspect divide by the same distance and take the same arcsine.
  all_goals
    have hdistance : (Arith.hypot (x / s.stretch) (y * s.stretch) : ℝ) ≠ 0 :=
      (lt_of_lt_of_le tolerance_pos (not_lt.mp hcentre)).ne'
    have hhalf : 0.5 * Arith.hypot (x / s.stretch) (y * s.stretch) / s.authalicRadius ∈
        Set.Icc (-1 : ℝ) 1 := by
      have hnonneg : (0 : ℝ) ≤ Arith.hypot (x / s.stretch) (y * s.stretch) :=
        Exact.hypot_nonneg _ _
      have hquotient : 0 ≤ 0.5 * Arith.hypot (x / s.stretch) (y * s.stretch) / s.authalicRadius :=
        div_nonneg (mul_nonneg (by norm_num) hnonneg) hradius.le
      exact ⟨by linarith, not_lt.mp hrim⟩
    simp only [of_asin hhalf, of_sin, of_cos, of_mul, of_add, of_sub, of_div hdistance]
    rfl

lemma bearing_of (he : e.Flattened) (hof : s.Of e)
    (hfitted : p.aspect = .equatorial ∨ p.aspect = .oblique → s.Fitted) (x y : ℝ) :
    (p.map of : Projection (Guarded v)).bearing (s.map of) (of x) (of y) =
      (p.bearing s x y).map (Option.map (mapBearing of)) := by
  have hpole : s.poleIntegral ≠ 0 := hof.poleIntegral_eq ▸ he.poleIntegral_pos.ne'
  have haspect : (p.map of : Projection (Guarded v)).aspect = p.aspect := rfl
  unfold bearing
  rw [haspect]
  cases h : p.aspect with
  | equatorial => exact bearingOfDisc_of (hfitted (.inl h)) p x y
  | oblique => exact bearingOfDisc_of (hfitted (.inr h)) p x y
  | northPolar =>
    simp only [Spheroid.map, of_mul, of_add, of_sub, of_neg, ofNat_eq, of_beq, of_div hpole]
    split_ifs <;> rfl
  | southPolar =>
    simp only [Spheroid.map, of_mul, of_add, of_sub, ofNat_eq, of_beq, of_div hpole]
    split_ifs <;> rfl

/-- The inverse mapping, wherever it is asked. -/
theorem inverseEllipsoid_of (he : e.Flattened) (hs : p.spheroid? = some s) (hof : s.Of e)
    (hfitted : p.aspect = .equatorial ∨ p.aspect = .oblique → s.Fitted) (x y : ℝ) :
    (p.map of : Projection (Guarded v)).inverseEllipsoid (of x) (of y) =
      (p.inverseEllipsoid x y).map (Coordinate.map of) := by
  have hs' : (p.map of : Projection (Guarded v)).spheroid? = some (s.map of) := by
    simp [Projection.map, hs]
  unfold inverseEllipsoid
  simp only [hs, hs', bearing_of he hof hfitted]
  rcases p.bearing s x y with refusal | _ | b
  · rfl
  · rfl
  · have hmem := Exact.clamp_mem (by norm_num : (-1 : ℝ) ≤ 1) b.sinAuthalic
    change (if _ then _ else _) = Except.map _ (if _ then _ else _)
    simp only [mapBearing, of_abs, tolerance_of, ofNat_eq, of_add, of_neg, of_lt, of_clamp,
      of_atan2]
    split_ifs
    · rfl
    · rw [of_asin hmem, spheroid_geographicLatitude_of he hof]
      rfl

end Guarded

end EqualArea
