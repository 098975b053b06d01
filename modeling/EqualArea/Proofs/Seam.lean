import EqualArea.Proofs.Angle
import EqualArea.Proofs.Operator.Pointwise
import EqualArea.Proofs.Signed.Arith

/-!
# The seam of the wrapped angles

Minus a half turn and a half turn are one direction.  The angles of that direction are the seam, and
wrapping decides for one of the two ends of the turn.

* `Angle.wrap_eq_toIcoMod` — over the reals the end is always minus a half turn.
* `Angle.BelowSeam` — the angles of the seam at least a whole turn below minus a half turn.
* `Angle.wrap_of_belowSeam`, `Angle.wrap_of_not_belowSeam` — with a signed zero the end is the half
  turn for these angles, and for all others the result is the one over the reals.
* `Angle.wrap_three_half_turns_back` — the first angle below the seam, wrapped.
* `Projection.longitude_of_inverseSphere`, `Projection.longitude_of_inverseEllipsoid` — what a
  longitude is before the meridian is added.
* `Operator.longitudes_between_half_turns` — what this makes of the longitudes of an operator.

**Design.**  Below the seam the remainder is a zero with the sign of a negative dividend, so the
half turn is added to it and not taken off.  A zero without a sign hides this, which is why the
statements are over `Signed`.  The angles are compared through their values, because a wrapped angle
is never the negative zero.
-/

namespace EqualArea

namespace Angle

/-! ## Over the reals -/

lemma neg_pi_add_two_pi : -Real.pi + 2 * Real.pi = Real.pi := by ring

/-- Wrapping gives the angle of the same direction from minus a half turn on. -/
lemma wrap_eq_toIcoMod (angle : ℝ) :
    wrap angle = toIcoMod Real.two_pi_pos (-Real.pi) angle := by
  obtain ⟨k, hk⟩ := exists_wrap_eq angle
  refine ((toIcoMod_eq_iff _).mpr ⟨neg_pi_add_two_pi.symm ▸ wrap_mem angle, -k, ?_⟩).symm
  rw [hk, zsmul_eq_mul]
  push_cast
  ring

lemma wrap_eq_wrap_iff {angle other : ℝ} :
    wrap angle = wrap other ↔ angle ≡ other [PMOD 2 * Real.pi] := by
  rw [wrap_eq_toIcoMod, wrap_eq_toIcoMod, toIcoMod_inj]

lemma wrap_eq_self_iff {angle : ℝ} : wrap angle = angle ↔ angle ∈ Set.Ico (-Real.pi) Real.pi := by
  rw [wrap_eq_toIcoMod, toIcoMod_eq_self, neg_pi_add_two_pi]

lemma wrap_modEq (angle : ℝ) : wrap angle ≡ angle [PMOD 2 * Real.pi] :=
  wrap_eq_wrap_iff.mp (wrap_eq_self_iff.mpr (wrap_mem angle))

lemma wrap_pi : wrap Real.pi = -Real.pi := by
  have hpi := Real.pi_pos
  have hends : Real.pi ≡ -Real.pi [PMOD 2 * Real.pi] :=
    AddCommGroup.modEq_iff_zsmul.mpr ⟨-1, by rw [zsmul_eq_mul]; push_cast; ring⟩
  rw [wrap_eq_wrap_iff.mpr hends, wrap_eq_self_iff]
  constructor <;> linarith

/-! ## The seam -/

/-- The angle is minus three half turns, minus five, and so on. -/
def BelowSeam (angle : ℝ) : Prop := ∃ k : ℕ, angle = -((2 * k + 3 : ℕ) * Real.pi)

lemma BelowSeam.le {angle : ℝ} (h : BelowSeam angle) : angle ≤ -(3 * Real.pi) := by
  obtain ⟨k, rfl⟩ := h
  push_cast
  nlinarith [Real.pi_pos, k.cast_nonneg (α := ℝ)]

lemma belowSeam_iff {angle : ℝ} :
    BelowSeam angle ↔ angle < -Real.pi ∧ wrap angle = -Real.pi := by
  have hpi := Real.pi_pos
  have hseam : wrap angle = -Real.pi ↔ ∃ m : ℤ, m * (2 * Real.pi) = Real.pi - angle := by
    rw [← wrap_pi, wrap_eq_wrap_iff, AddCommGroup.modEq_iff_zsmul]
    simp only [zsmul_eq_mul]
  rw [hseam]
  constructor
  · intro h
    refine ⟨by linarith [h.le], ?_⟩
    obtain ⟨k, rfl⟩ := h
    refine ⟨k + 2, ?_⟩
    push_cast
    ring
  · rintro ⟨hlow, m, hm⟩
    -- One turn leads back to minus a half turn itself, and that is not below it.
    have hturns : 2 ≤ m := by
      have : (1 : ℝ) < m := by nlinarith
      exact_mod_cast this
    obtain ⟨k, hk⟩ := Int.eq_ofNat_of_zero_le (sub_nonneg.mpr hturns)
    obtain rfl : m = k + 2 := eq_add_of_sub_eq hk
    refine ⟨k, ?_⟩
    push_cast at hm ⊢
    linarith

/-! ## With a signed zero -/

section

variable (angle : Signed)

/-- The remainder that wrapping takes. -/
lemma value_wrap_rem : (Arith.rem (angle + Arith.pi) (2 * Arith.pi)).value =
    Exact.rem (angle.value + Real.pi) (2 * Real.pi) := by
  simp only [Signed.value_rem, Signed.value_add, Signed.value_mul, Signed.value_two,
    Signed.value_pi]

/-- The remainder has the sign of the shifted angle, also when it is a zero. -/
lemma negative_wrap_rem :
    (Arith.rem (angle + Arith.pi) (2 * Arith.pi)).Negative ↔ angle.value < -Real.pi := by
  have hpi := Real.pi_pos
  have hshifted : (angle + Arith.pi).Negative ↔ angle.value < -Real.pi := by
    have hpositive : ¬(Arith.pi : Signed).Negative := hpi.not_gt
    rw [Signed.negative_add, or_iff_left fun h => hpositive h.2.2, Signed.value_pi]
    exact lt_neg_iff_add_neg.symm
  rw [Signed.negative_rem, ← Signed.value_rem, value_wrap_rem, hshifted]
  -- A remainder with the sign of a negative dividend is negative or a zero, and as a zero it has
  -- that sign too.
  rcases Exact.rem_mem (x := angle.value + Real.pi) Real.two_pi_pos with
    ⟨hside, hrem⟩ | ⟨hside, hrem⟩
  · have hhigh : ¬angle.value < -Real.pi := by linarith
    simp only [hhigh, hrem.1.not_gt, and_false, or_false]
  · have hlow : angle.value < -Real.pi := by linarith
    simp only [hlow, hrem.2.lt_or_eq, and_true]

/-- The half turn goes back on the side the angle comes from, and no zero is negative. -/
lemma wrap_eq_rem : wrap angle =
    .of (Exact.rem (angle.value + Real.pi) (2 * Real.pi) +
      if angle.value < -Real.pi then Real.pi else -Real.pi) := by
  have hpi := Real.pi_pos
  have hvalue := value_wrap_rem angle
  have hside := negative_wrap_rem angle
  set rest : Signed := Arith.rem (angle + Arith.pi) (2 * Arith.pi)
  have hback : (Arith.pi * Arith.signum rest).value =
      if angle.value < -Real.pi then -Real.pi else Real.pi := by
    rw [Signed.value_mul, Signed.value_pi, Signed.signum_eq, Signed.signum, Signed.value_of]
    simp only [hside]
    split_ifs <;> ring
  have hne : (Arith.pi * Arith.signum rest).value ≠ 0 := by
    rw [hback]
    split_ifs <;> linarith
  -- A difference is a negative zero only where the first number is negative and the second is not.
  have hsides : ¬(rest.Negative ∧ ¬(Arith.pi * Arith.signum rest).Negative) := by
    rw [Signed.negative_iff_of_ne hne, hback, hside]
    rintro ⟨hlow, hnot⟩
    rw [if_pos hlow] at hnot
    linarith
  calc wrap angle = .of (rest.value - (Arith.pi * Arith.signum rest).value) :=
        Signed.withSign_of_not hsides _
    _ = _ := by
      rw [hvalue, hback]
      split_ifs <;> ring_nf

variable {angle}

/-- Below the seam the result is the half turn. -/
theorem wrap_of_belowSeam (h : BelowSeam angle.value) : wrap angle = .of Real.pi := by
  obtain ⟨hlow, hreal⟩ := belowSeam_iff.mp h
  -- An angle that is wrapped to the seam is a whole number of turns away from it.
  have hzero : Exact.rem (angle.value + Real.pi) (2 * Real.pi) = 0 := by
    rw [wrap_eq] at hreal
    rcases Exact.rem_mem (x := angle.value + Real.pi) Real.two_pi_pos with ⟨hside, -⟩ | ⟨-, hrem⟩
    · linarith
    · split_ifs at hreal with hneg
      · linarith [hrem.1]
      · linarith
  rw [wrap_eq_rem, if_pos hlow, hzero, zero_add]

/-- Elsewhere the result is the one over the reals. -/
theorem wrap_of_not_belowSeam (h : ¬BelowSeam angle.value) :
    wrap angle = .of (wrap angle.value) := by
  rw [wrap_eq_rem, wrap_eq]
  refine congrArg Signed.of ?_
  rcases Exact.rem_mem (x := angle.value + Real.pi) Real.two_pi_pos with
    ⟨hside, hrem⟩ | ⟨hside, hrem⟩
  · have hhigh : ¬angle.value < -Real.pi := by linarith
    rw [if_neg hhigh, if_neg hrem.1.not_gt, sub_eq_add_neg]
  · have hlow : angle.value < -Real.pi := by linarith
    have hneg : Exact.rem (angle.value + Real.pi) (2 * Real.pi) < 0 := by
      refine hrem.2.lt_of_ne fun hzero => h (belowSeam_iff.mpr ⟨hlow, ?_⟩)
      rw [wrap_eq, hzero, if_neg (lt_irrefl _), zero_sub]
    rw [if_pos hlow, if_pos hneg]

/-- Wrapping keeps the direction. -/
theorem value_wrap_modEq (angle : Signed) :
    (wrap angle).value ≡ angle.value [PMOD 2 * Real.pi] := by
  by_cases h : BelowSeam angle.value
  · have hreal := wrap_modEq angle.value
    rw [(belowSeam_iff.mp h).2, ← wrap_pi] at hreal
    rw [wrap_of_belowSeam h]
    exact (wrap_modEq Real.pi).symm.trans hreal
  · rw [wrap_of_not_belowSeam h]
    exact wrap_modEq angle.value

end

/-- **Wrapping, on the whole turn**: below the seam the half turn, everywhere else an angle of the
half-open turn. -/
lemma value_wrap_mem (angle : Signed) :
    (wrap angle).value ∈ Set.Icc (-Real.pi) Real.pi ∧
      ((wrap angle).value ∈ Set.Ico (-Real.pi) Real.pi ↔ ¬BelowSeam angle.value) := by
  have hpi := Real.pi_pos
  by_cases h : BelowSeam angle.value
  · rw [wrap_of_belowSeam h]
    refine ⟨Set.right_mem_Icc.mpr (by linarith), iff_of_false ?_ (not_not.mpr h)⟩
    exact fun hmem => hmem.2.ne rfl
  · have hmem := wrap_mem angle.value
    rw [wrap_of_not_belowSeam h]
    exact ⟨Set.Ico_subset_Icc_self hmem, iff_of_true hmem h⟩

/-- Congruent angles get the same result when both are below the seam or none is. -/
lemma wrap_eq_wrap_of_modEq {angle other : Signed}
    (h : angle.value ≡ other.value [PMOD 2 * Real.pi]) :
    wrap angle = wrap other ↔ (BelowSeam angle.value ↔ BelowSeam other.value) := by
  constructor
  · intro heq
    rw [← not_iff_not, ← (value_wrap_mem angle).2, ← (value_wrap_mem other).2, heq]
  · intro hiff
    by_cases hangle : BelowSeam angle.value
    · rw [wrap_of_belowSeam hangle, wrap_of_belowSeam (hiff.mp hangle)]
    · rw [wrap_of_not_belowSeam hangle, wrap_of_not_belowSeam (mt hiff.mpr hangle),
        wrap_eq_wrap_iff.mpr h]

/-- A wrapped angle is not below the seam. -/
lemma not_belowSeam_wrap (angle : Signed) : ¬BelowSeam (wrap angle).value := fun h => by
  linarith [h.le, (value_wrap_mem angle).1.1, Real.pi_pos]

/-- Wrapping again changes the results below the seam only. -/
lemma wrap_wrap_eq_iff (angle : Signed) :
    wrap (wrap angle) = wrap angle ↔ ¬BelowSeam angle.value := by
  rw [wrap_eq_wrap_of_modEq (value_wrap_modEq angle)]
  exact iff_false_left (not_belowSeam_wrap angle)

/-- Minus three half turns is wrapped to a half turn, which is beyond the half-open turn, is wrapped
again to minus a half turn, and is not the result for the angle three turns further on. -/
theorem wrap_three_half_turns_back :
    wrap (Signed.of (-(3 * Real.pi))) = .of Real.pi ∧
      wrap (wrap (Signed.of (-(3 * Real.pi)))) = .of (-Real.pi) ∧
      wrap (Signed.of (3 * Real.pi)) = .of (-Real.pi) := by
  have hpi := Real.pi_pos
  have hseam : BelowSeam (Signed.of (-(3 * Real.pi))).value := ⟨0, by norm_num⟩
  have hback : wrap (Signed.of (-(3 * Real.pi))) = .of Real.pi := wrap_of_belowSeam hseam
  have hhalf : wrap (Signed.of Real.pi) = .of (-Real.pi) := by
    rw [wrap_of_not_belowSeam fun h => by linarith [h.le, Signed.value_of Real.pi], Signed.value_of,
      wrap_pi]
  have hfurther : wrap (Signed.of (3 * Real.pi)) = wrap (Signed.of Real.pi) := by
    have hturn :
        (Signed.of (3 * Real.pi)).value ≡ (Signed.of Real.pi).value [PMOD 2 * Real.pi] := by
      refine AddCommGroup.modEq_iff_zsmul.mpr ⟨-1, ?_⟩
      rw [zsmul_eq_mul, Signed.value_of, Signed.value_of]
      push_cast
      ring
    refine (wrap_eq_wrap_of_modEq hturn).mpr (iff_of_false ?_ ?_)
    · exact fun h => by linarith [h.le, Signed.value_of (3 * Real.pi)]
    · exact fun h => by linarith [h.le, Signed.value_of Real.pi]
  exact ⟨hback, hback ▸ hhalf, hfurther.trans hhalf⟩

end Angle

/-! ## Longitudes of the mappings -/

namespace Projection

variable {α : Type} [Arith α] {p : Projection α} {x y : α} {d : Coordinate α}

/-- A longitude on the sphere is zero or the angle of a point. -/
lemma longitude_of_inverseSphere (h : p.inverseSphere x y = .ok d) :
    d.first = 0 ∨ ∃ east north, d.first = Arith.atan2 east north := by
  have hdirection (east north : α) : direction east north = 0 ∨
      ∃ east' north', direction east north = Arith.atan2 east' north' := by
    unfold direction
    split_ifs
    · exact .inl rfl
    · exact .inr ⟨_, _, rfl⟩
  simp only [inverseSphere] at h
  split at h
  · cases h
  · cases haspect : p.aspect <;> rw [haspect] at h <;> obtain rfl := Except.ok.inj h
    case equatorial => exact hdirection _ _
    case oblique => exact hdirection _ _
    case northPolar => exact .inr ⟨_, _, rfl⟩
    case southPolar => exact .inr ⟨_, _, rfl⟩

/-- A longitude on the ellipsoid is zero or the angle of a point. -/
lemma longitude_of_inverseEllipsoid (h : p.inverseEllipsoid x y = .ok d) :
    d.first = 0 ∨ ∃ east north, d.first = Arith.atan2 east north := by
  unfold inverseEllipsoid at h
  cases hspheroid : p.spheroid? with
  | none =>
    rw [hspheroid] at h
    cases h
  | some s =>
    rw [hspheroid] at h
    cases hbearing : p.bearing s x y with
    | error refusal =>
      simp only [hbearing] at h
      cases h
    | ok found =>
      simp only [hbearing] at h
      cases found with
      | none =>
        obtain rfl := Except.ok.inj h
        exact .inl rfl
      | some b =>
        change (if _ then _ else _) = _ at h
        split_ifs at h
        obtain rfl := Except.ok.inj h
        exact .inr ⟨_, _, rfl⟩

end Projection

/-- From the plane, the longitude a mapping gives is between minus a half turn and a half turn. -/
lemma Parameters.longitude_of_core {P : Parameters Signed} {p : Projection Signed}
    {direction : Direction} {c e : Coordinate Signed} (hdirection : P.runsToMap direction = false)
    (he : P.core p direction c = .ok e) : e.first.value ∈ Set.Icc (-Real.pi) Real.pi := by
  have hpi := Real.pi_pos
  have hpoint : e.first = 0 ∨ ∃ east north, e.first = Arith.atan2 east north := by
    simp only [core, hdirection, Bool.false_eq_true, if_false] at he
    split at he
    · exact Projection.longitude_of_inverseSphere he
    · exact Projection.longitude_of_inverseEllipsoid he
  rcases hpoint with hzero | ⟨east, north, hangle⟩
  · rw [hzero, Signed.value_zero]
    exact ⟨by linarith, hpi.le⟩
  · rw [hangle]
    exact Signed.value_atan2_mem east north

/-! ## The map around a point of the equator -/

/-- The equator is far from the poles. -/
lemma Aspect.ofLatitude_signed_zero : Aspect.ofLatitude (0 : Signed) = .ok .equatorial := by
  have hpi := Real.pi_gt_three
  have hquarter : (Arith.quarterTurn : Signed).value = Real.pi / 2 := Signed.value_div
  have htolerance : (tolerance : Signed).value = 1e-10 := Signed.value_ofScientific _ _ _
  have hgood : ¬(Arith.quarterTurn : Signed) + tolerance < Arith.abs 0 := by
    rw [Signed.lt_iff, Signed.value_add, Signed.value_abs, Signed.value_zero, abs_zero, hquarter,
      htolerance]
    linarith
  have hpole : ¬Arith.abs (Arith.abs (0 : Signed) - Arith.quarterTurn) < tolerance := by
    rw [Signed.lt_iff, Signed.value_abs, Signed.value_sub, Signed.value_abs, Signed.value_zero,
      abs_zero, hquarter, htolerance, zero_sub, abs_neg, abs_of_pos (by linarith)]
    linarith
  have hequator : Arith.abs (0 : Signed) < tolerance := by
    rw [Signed.lt_iff, Signed.value_abs, Signed.value_zero, abs_zero, htolerance]
    norm_num
  simp only [Aspect.ofLatitude, Signed.isNaN_eq, Bool.false_eq_true, false_or, if_neg hgood,
    if_neg hpole, if_pos hequator]

namespace Projection

/-- On the map of a sphere around a point of the equator that point is at the origin, whatever the
signs of the zeros. -/
lemma inverseSphere_of_centre {x y : Signed} (hx : x.value = 0) (hy : y.value = 0) :
    (ofSphere .equatorial 0).inverseSphere x y = .ok ⟨0, 0⟩ := by
  have hrho : (Arith.hypot x y).value = 0 := by
    rw [Signed.value_hypot, hx, hy, Exact.hypot_zero_right le_rfl]
  have hnear : ¬1 < Arith.hypot x y * 0.5 := by simp [hrho]
  have htolerance : Arith.hypot x y ≤ tolerance := by
    rw [Signed.le_iff, hrho]
    exact tolerance_pos.le
  have hdirection (sinZ cosZ : Signed) :
      direction (x * sinZ) (cosZ * Arith.hypot x y) = 0 := by
    have hzeros : (cosZ * Arith.hypot x y == 0 && x * sinZ == 0) = true := by
      simp [hx, hrho]
    exact if_pos hzeros
  simp only [inverseSphere, if_neg hnear, ofSphere, if_pos htolerance, hdirection]

end Projection

namespace Operator

open CoordinateSet (get?)

/-- The map of the unit sphere around the point where a meridian meets the equator. -/
noncomputable def onEquator (meridian : Signed) : Parameters Signed :=
  ⟨⟨1, 0⟩, 0, meridian, 0, 0, 1, false⟩

section

variable (meridian : Signed)

lemma eccentricitySq_onEquator : (onEquator meridian).ellipsoid.eccentricitySq.value = 0 := by
  simp [onEquator, Ellipsoid.eccentricitySq]

lemma centredAt_onEquator :
    Projection.centredAt (onEquator meridian).latitude (onEquator meridian).ellipsoid =
      .ok (Projection.ofSphere .equatorial 0) := by
  have hsphere : ((onEquator meridian).ellipsoid.eccentricitySq == 0) = true :=
    Signed.beq_iff.mpr (eccentricitySq_onEquator meridian)
  change Projection.centredAt (0 : Signed) _ = _
  simp only [Projection.centredAt, Aspect.ofLatitude_signed_zero, hsphere, if_true]
  rfl

lemma create_onEquator : (create (onEquator meridian)).run.value =
    .ok (ofProjection (onEquator meridian) (Projection.ofSphere .equatorial 0)) := by
  have hes := eccentricitySq_onEquator meridian
  rw [create_value, ofParameters_eq_ok]
  refine ⟨?_, _, centredAt_onEquator meridian, rfl⟩
  have hone : (0 : Signed) < 1 := Signed.lt_iff.mpr one_pos
  have hellipsoid : 0 < (onEquator meridian).ellipsoid.semimajor ∧
      0 ≤ (onEquator meridian).ellipsoid.eccentricitySq ∧
      (onEquator meridian).ellipsoid.eccentricitySq < 1 :=
    ⟨hone, Signed.le_iff.mpr hes.ge, Signed.lt_iff.mpr (hes.trans_lt one_pos)⟩
  have hscale : 0 < (onEquator meridian).scale := hone
  simp only [Parameters.check, hellipsoid, hscale, Signed.isFinite_eq, and_true, not_true, if_false,
    Bool.and_self, if_true]

/-- The origin of the plane is the centre. -/
lemma core_onEquator : (onEquator meridian).core (Projection.ofSphere .equatorial 0) .inverse
    Coordinate.origin = .ok ⟨0, 0⟩ := by
  have hsphere : ((onEquator meridian).ellipsoid.eccentricitySq == 0) = true :=
    Signed.beq_iff.mpr (eccentricitySq_onEquator meridian)
  have hdirection : (onEquator meridian).runsToMap .inverse = false := rfl
  have horigin : ((0 - 0) / (1 * 1) : Signed).value = 0 := by simp
  simp only [Parameters.core, hdirection, hsphere, Bool.false_eq_true, if_false, if_true]
  exact Projection.inverseSphere_of_centre horigin horigin

end

/-! ## Longitudes -/

/-- **Longitudes, on the whole turn.**  A wrapped angle has the direction of the angle and is
between minus a half turn and a half turn, and it is the half turn for the angles below the seam
only.  Elsewhere the result is in the half-open turn, wrapping again does not change it, and
congruent angles have the same.  So the longitude an operator gives a point of the plane is in the
half-open turn unless the longitude from the meridian of the centre and the meridian add up to an
angle below the seam, which takes a meridian at least a whole turn west. -/
theorem longitudes_between_half_turns (angle : Signed) :
    ((Angle.wrap angle).value ≡ angle.value [PMOD 2 * Real.pi] ∧
      (Angle.wrap angle).value ∈ Set.Icc (-Real.pi) Real.pi ∧
      ((Angle.wrap angle).value ∈ Set.Ico (-Real.pi) Real.pi ↔ ¬Angle.BelowSeam angle.value) ∧
      (Angle.wrap (Angle.wrap angle) = Angle.wrap angle ↔ ¬Angle.BelowSeam angle.value) ∧
      ∀ other : Signed, angle.value ≡ other.value [PMOD 2 * Real.pi] →
        (Angle.wrap angle = Angle.wrap other ↔
          (Angle.BelowSeam angle.value ↔ Angle.BelowSeam other.value))) ∧
    ∀ {P : Parameters Signed} {op : Operator Signed}, (create P).run.value = .ok op →
      ∀ {direction : Direction}, P.runsToMap direction = false →
      ∀ {σ : Type} [CoordinateSet σ Signed] [LawfulCoordinateSet σ Signed] (s : σ) {i : ℕ}
        {c d : Coordinate Signed}, get? s i = some c → P.core op.projection direction c = .ok d →
        let longitude := Angle.wrap (d.first + P.meridian)
        get? (op.apply direction s).value.2 i = some ⟨longitude, d.second⟩ ∧
        longitude.value ∈ Set.Icc (-Real.pi) Real.pi ∧
        (longitude.value ∈ Set.Ico (-Real.pi) Real.pi ↔
          ¬Angle.BelowSeam (d.first.value + P.meridian.value)) ∧
        (-(2 * Real.pi) < P.meridian.value →
          longitude.value ∈ Set.Ico (-Real.pi) Real.pi) := by
  constructor
  · obtain ⟨hmem, hhalfOpen⟩ := Angle.value_wrap_mem angle
    exact ⟨Angle.value_wrap_modEq angle, hmem, hhalfOpen, Angle.wrap_wrap_eq_iff angle,
      fun other h => Angle.wrap_eq_wrap_of_modEq h⟩
  · intro P op hop direction hdirection σ _ _ s i c d hc hd longitude
    rw [create_value] at hop
    obtain ⟨-, p, hp, rfl⟩ := ofParameters_eq_ok.mp hop
    have hcore : P.core p direction c = .ok d := hd
    have himage : (ofProjection P p).result direction c = ⟨longitude, d.second⟩ := by
      rw [result_of_created hp, Parameters.image, hcore]
      simp only [Parameters.placed, hdirection, Bool.false_eq_true, if_false]
      rfl
    obtain ⟨hmem, hhalfOpen⟩ := Angle.value_wrap_mem (d.first + P.meridian)
    rw [Signed.value_add] at hhalfOpen
    refine ⟨?_, hmem, hhalfOpen, fun hmeridian => hhalfOpen.mpr fun hseam => ?_⟩
    · rw [LawfulCoordinateSet.get?_eq] at hc ⊢
      rw [toList_apply, List.getElem?_map, hc, Option.map_some, himage]
    -- Below the seam an angle is at most minus three half turns, and the mapping gives at least
    -- minus one.
    · linarith [hseam.le, (Parameters.longitude_of_core hdirection hcore).1]

/-- A map centred at minus three half turns gives its centre a longitude beyond the half-open turn;
one centred at a half turn does not. -/
theorem longitudes_between_half_turns_of_centre :
    (Angle.wrap (Signed.of (-(3 * Real.pi)))).value ∉ Set.Ico (-Real.pi) Real.pi ∧
      (∃ op longitude, (create (onEquator (.of (-(3 * Real.pi))))).run.value = .ok op ∧
        get? (op.apply .inverse #[(Coordinate.origin : Coordinate Signed)]).value.2 0 =
          some ⟨longitude, 0⟩ ∧
        longitude.value ∈ Set.Icc (-Real.pi) Real.pi ∧
        longitude.value ∉ Set.Ico (-Real.pi) Real.pi) ∧
      ∃ op longitude, (create (onEquator (.of Real.pi))).run.value = .ok op ∧
        get? (op.apply .inverse #[(Coordinate.origin : Coordinate Signed)]).value.2 0 =
          some ⟨longitude, 0⟩ ∧
        longitude.value ∈ Set.Ico (-Real.pi) Real.pi := by
  have hpi := Real.pi_pos
  obtain ⟨⟨-, -, hwrap, -⟩, hcreated⟩ := longitudes_between_half_turns (.of (-(3 * Real.pi)))
  have hfirst : get? #[(Coordinate.origin : Coordinate Signed)] 0 = some Coordinate.origin := rfl
  have hcentre (meridian : Signed) := hcreated (create_onEquator meridian)
    (rfl : (onEquator meridian).runsToMap .inverse = false)
    #[(Coordinate.origin : Coordinate Signed)] hfirst (core_onEquator meridian)
  have hseam : Angle.BelowSeam (-(3 * Real.pi)) := ⟨0, by norm_num⟩
  refine ⟨fun hmem => hwrap.mp hmem hseam, ?_, ?_⟩
  · obtain ⟨hget, hmem, hhalfOpen, -⟩ := hcentre (.of (-(3 * Real.pi)))
    refine ⟨_, _, create_onEquator _, hget, hmem, fun h => hhalfOpen.mp h ?_⟩
    exact (zero_add (-(3 * Real.pi))).symm ▸ hseam
  · obtain ⟨hget, -, -, hbound⟩ := hcentre (.of Real.pi)
    have hmeridian : -(2 * Real.pi) < (onEquator (.of Real.pi)).meridian.value := by
      change -(2 * Real.pi) < Real.pi
      linarith
    exact ⟨_, _, create_onEquator _, hget, hbound hmeridian⟩

end Operator

end EqualArea
