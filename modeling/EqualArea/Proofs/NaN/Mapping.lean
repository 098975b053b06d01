import EqualArea.Proofs.NaN.Arith
import EqualArea.Projection.Ellipsoid
import EqualArea.Projection.Sphere

/-!
# The mappings on what is no number

No mapping of a projection refuses a point that is no number: each of their domain tests is a
comparison that fails there, and the image is no number either.

* `Coordinate.Nowhere`, `MapsToNowhere` — a pair of which neither element is a number, and a mapping
  that succeeds with such a pair.
* `forwardSphere_of_isNaN`, `forwardEllipsoid_of_isNaN` — to the plane, for a latitude that is no
  number.
* `inverseSphere_of_isNaN`, `inverseEllipsoid_of_isNaN` — from the plane.

**Design.**  A refusal is always the positive outcome of a comparison, `<` or `≤`, so the same law
settles every domain test.  To the plane the latitude alone decides; from the plane both elements
are asked for, since the length over an infinite leg is infinite.
-/

namespace EqualArea

open Arith (isNaN)

variable {α : Type} [Arith α]

/-- Neither element is a number. -/
def Coordinate.Nowhere (c : Coordinate α) : Prop := isNaN c.first ∧ isNaN c.second

/-- The image is there, and it is nowhere. -/
def MapsToNowhere (image : Except Refusal (Coordinate α)) : Prop :=
  ∃ c, image = .ok c ∧ c.Nowhere

lemma Coordinate.nan_nowhere [LawfulNaN α] : (Coordinate.nan : Coordinate α).Nowhere :=
  ⟨LawfulNaN.isNaN_nan, LawfulNaN.isNaN_nan⟩

lemma mapsToNowhere_ok {c : Coordinate α} (h : c.Nowhere) : MapsToNowhere (.ok c) := ⟨c, rfl, h⟩

namespace Projection

open LawfulNaN

section

variable [LawfulNaN α] {x y : α}

lemma scaledPoint_of_isNaN (h : isNaN x) (e n : α) : MapsToNowhere (scaledPoint x e n) := by
  have hinside : ¬x ≤ tolerance := not_le (.inl h)
  unfold scaledPoint
  rw [if_neg hinside]
  exact mapsToNowhere_ok ⟨by grind, by grind⟩

/-- Whatever is computed from the scale is computed from no number. -/
lemma radialScale_bind {f : α → Except Refusal (Coordinate α)} (h : isNaN x)
    (hf : ∀ k, isNaN k → MapsToNowhere (f k)) : MapsToNowhere (radialScale x >>= f) := by
  have hinside : ¬Arith.abs x < tolerance := by grind
  unfold radialScale
  rw [if_neg hinside]
  exact hf _ (by grind)

lemma polarRadius_bind {f : Option α → Except Refusal (Coordinate α)} (hx : isNaN x)
    (hy : isNaN y) (hf : ∀ rho, isNaN rho → MapsToNowhere (f (some rho))) :
    MapsToNowhere (polarRadius x y >>= f) := by
  have hantipode : ¬Arith.abs x < tolerance := by grind
  have hpole : ¬y < poleLimit := not_lt (.inl hy)
  unfold polarRadius
  rw [if_neg hantipode, if_neg hpole]
  exact hf _ (by grind)

end

variable [LawfulNaN.Elementary α] {p : Projection α} {s : Spheroid α} {x y phi : α}

/-! ## To the plane -/

/-- **The sphere has an image for a latitude that is no number.** -/
theorem forwardSphere_of_isNaN (p : Projection α) (lambda : α) (h : isNaN phi) :
    MapsToNowhere (p.forwardSphere lambda phi) := by
  have hopposite : ¬Arith.abs (phi + p.latitude) < tolerance := by grind
  have hhalf : isNaN (Arith.pi / 4 - phi * 0.5) := by grind
  unfold forwardSphere
  cases p.aspect with
  | equatorial => exact scaledPoint_of_isNaN (by grind) _ _
  | oblique => exact scaledPoint_of_isNaN (by grind) _ _
  | northPolar =>
    simp only [if_neg hopposite]
    exact mapsToNowhere_ok ⟨by grind, by grind⟩
  | southPolar =>
    simp only [if_neg hopposite]
    exact mapsToNowhere_ok ⟨by grind, by grind⟩

lemma isNaN_authalicLatitude (s : Spheroid α) (h : isNaN phi) : isNaN (s.authalicLatitude phi) := by
  unfold Spheroid.authalicLatitude Ellipsoid.authalicLatitude
  split_ifs
  · grind
  · have hsin : isNaN (Arith.sin phi) := by grind
    have hintegral : isNaN (s.ellipsoid.authalicIntegral (Arith.sin phi)) := by
      simp only [Ellipsoid.authalicIntegral, Authalic.integral]
      split_ifs <;> grind
    grind

/-- **The ellipsoid has one too.** -/
theorem forwardEllipsoid_of_isNaN (hs : p.spheroid? = some s) (lambda : α) (h : isNaN phi) :
    MapsToNowhere (p.forwardEllipsoid lambda phi) := by
  have hxi := isNaN_authalicLatitude s h
  unfold forwardEllipsoid
  simp only [hs]
  cases p.aspect with
  | oblique =>
    exact radialScale_bind (by grind) fun k hk => mapsToNowhere_ok ⟨by grind, by grind⟩
  | equatorial =>
    exact radialScale_bind (by grind) fun k hk => mapsToNowhere_ok ⟨by grind, by grind⟩
  | northPolar =>
    exact polarRadius_bind (by grind) (by grind) fun rho hrho =>
      mapsToNowhere_ok ⟨by grind, by grind⟩
  | southPolar =>
    exact polarRadius_bind (by grind) (by grind) fun rho hrho =>
      mapsToNowhere_ok ⟨by grind, by grind⟩

/-! ## From the plane -/

lemma isNaN_direction (h : isNaN x) (y : α) : isNaN (direction x y) := by
  have hx : (x == 0) = false := beq_eq_false (.inl h)
  unfold direction
  rw [hx, Bool.and_false]
  exact Elementary.isNaN_atan2 (.inl h)

/-- **The sphere has a point for a coordinate of the plane that is nowhere.** -/
theorem inverseSphere_of_isNaN (p : Projection α) (hx : isNaN x) (hy : isNaN y) :
    MapsToNowhere (p.inverseSphere x y) := by
  have hrho : isNaN (Arith.hypot x y) := isNaN_hypot hx hy
  have hinside : ¬1 < Arith.hypot x y * 0.5 := by grind
  have hfar : ¬Arith.hypot x y ≤ tolerance := not_le (.inl hrho)
  have hz : isNaN (2 * Arith.asin (Arith.hypot x y * 0.5)) := by grind
  unfold inverseSphere
  simp only [if_neg hinside, if_neg hfar]
  cases p.aspect with
  | equatorial => exact mapsToNowhere_ok ⟨isNaN_direction (by grind) _, by grind⟩
  | oblique => exact mapsToNowhere_ok ⟨isNaN_direction (by grind) _, by grind⟩
  | northPolar => exact mapsToNowhere_ok ⟨by grind, by grind⟩
  | southPolar => exact mapsToNowhere_ok ⟨by grind, by grind⟩

/-- The iteration ends at once at what is no number, since no correction of it is finite. -/
lemma isNaN_refine (es q : α) (n : ℕ) (h : isNaN phi) : isNaN (Authalic.refine es q n phi) := by
  cases n with
  | zero => exact h
  | succ n =>
    have hpole : ¬Arith.quarterTurn - Arith.abs phi < 1e-12 := by grind
    have hsin : isNaN (Arith.sin phi) := by grind
    have hcorrection : isNaN (Authalic.newtonStep es q phi) := by
      simp only [Authalic.newtonStep]
      grind
    rw [Authalic.refine, if_neg hpole]
    simp only [isFinite_eq_false hcorrection]
    exact h

lemma isNaN_geographicLatitude (s : Spheroid α) {xi : α} (h : isNaN xi) :
    isNaN (s.geographicLatitude xi) := by
  have hstart : isNaN (xi + Series.sineSum (2 * xi) s.series.inverse) := by grind
  unfold Spheroid.geographicLatitude Ellipsoid.geographicLatitude
  split_ifs
  · exact hstart
  · exact isNaN_refine _ _ _ hstart

/-- A coordinate that is nowhere is not taken for the centre nor put outside, and its bearing is
none. -/
lemma bearing_of_isNaN (p : Projection α) (s : Spheroid α) (hx : isNaN x) (hy : isNaN y) :
    ∃ b, p.bearing s x y = .ok (some b) ∧ isNaN b.sinAuthalic ∧ isNaN b.east := by
  have hsquared : isNaN (x * x + y * y) := by grind
  have hpole : (x * x + y * y == 0) = false := beq_eq_false (.inl hsquared)
  have hrho : isNaN (Arith.hypot (x / s.stretch) (y * s.stretch)) := by grind
  have hcentre : ¬Arith.hypot (x / s.stretch) (y * s.stretch) < tolerance := not_lt (.inl hrho)
  have hinside : ¬1 < 0.5 * Arith.hypot (x / s.stretch) (y * s.stretch) / s.authalicRadius := by
    grind
  unfold bearing bearingOfDisc
  simp only [if_neg hcentre, if_neg hinside, hpole]
  cases haspect : p.aspect with
  | northPolar => exact ⟨_, rfl, by grind, hx⟩
  | southPolar => exact ⟨_, rfl, by grind, hx⟩
  | equatorial => exact ⟨_, rfl, by grind, by grind⟩
  | oblique => exact ⟨_, rfl, by grind, by grind⟩

/-- **The ellipsoid has one too.** -/
theorem inverseEllipsoid_of_isNaN (hs : p.spheroid? = some s) (hx : isNaN x) (hy : isNaN y) :
    MapsToNowhere (p.inverseEllipsoid x y) := by
  obtain ⟨b, hb, hsin, heast⟩ := bearing_of_isNaN p s hx hy
  have hinside : ¬1 + tolerance < Arith.abs b.sinAuthalic := by grind
  have hxi : isNaN (Arith.asin (Arith.clamp (-1) 1 b.sinAuthalic)) := by grind
  unfold inverseEllipsoid
  simp only [hs, hb]
  refine ⟨_, if_neg hinside, ?_, isNaN_geographicLatitude s hxi⟩
  exact Elementary.isNaN_atan2 (.inl heast)

end Projection

end EqualArea
