import EqualArea.Proofs.Authalic.Bijection

/-!
# Stretched latitudes

The latitude with a given authalic latitude lies between two latitudes whose tangents are multiples
of the tangent of the authalic latitude.

* `stretch`, `sin_stretch`, `cos_stretch` — the latitude whose tangent is `(1 + m) / (1 - m)` times
  that of a given one.
* `Authalic.le_integral_stretched`, `Authalic.integral_stretched_le` — how the integral of a
  stretched latitude compares with a multiple of the sine of the latitude.
* `Ellipsoid.Flattened.le_stretch`, `Ellipsoid.Flattened.stretch_le` — when the latitude is not past
  the stretched authalic latitude, and when it is not short of it.
* `Ellipsoid.poleIntegral_mul_le` — the integral at the pole, by the third flattening.

**Design.**  A stretched latitude and the one it stands for agree at the equator and at the pole, so
between the two it is enough to know on which side the difference starts, or ends, and that its
slope changes sign once.  The sign of the slope is that of a concave function of the squared sine.
-/

namespace EqualArea

/-! ## Functions that vanish at both ends -/

section

variable {g g' : ℝ → ℝ} (hg : ∀ s ∈ Set.Icc (0 : ℝ) 1, HasDerivAt g (g' s) s) (hzero : g 0 = 0)
  (hone : g 1 = 0)

include hg hzero hone

/-- What vanishes at both ends of an interval and rises before it falls is not negative. -/
lemma nonneg_of_slope
    (hslope : ∀ s ∈ Set.Icc (0 : ℝ) 1, ∀ t ∈ Set.Icc (0 : ℝ) 1, s ≤ t → 0 ≤ g' t → 0 ≤ g' s)
    {s : ℝ} (hs : s ∈ Set.Icc (0 : ℝ) 1) : 0 ≤ g s := by
  have hcontinuous : ContinuousOn g (Set.Icc 0 1) :=
    fun t ht => (hg t ht).continuousAt.continuousWithinAt
  -- Where the slope is not negative it was not negative before, and where it is negative it stays
  -- so.
  rcases le_or_gt 0 (g' s) with hrise | hfall
  · have hsub : Set.Icc 0 s ⊆ Set.Icc (0 : ℝ) 1 := Set.Icc_subset_Icc_right hs.2
    have hmono : MonotoneOn g (Set.Icc 0 s) := by
      refine monotoneOn_of_deriv_nonneg (convex_Icc 0 s) (hcontinuous.mono hsub)
        (fun t ht => (hg t (hsub (interior_subset ht))).differentiableAt.differentiableWithinAt) ?_
      intro t ht
      have hmem := interior_subset ht
      rw [(hg t (hsub hmem)).deriv]
      exact hslope t (hsub hmem) s hs hmem.2 hrise
    rw [← hzero]
    exact hmono (Set.left_mem_Icc.mpr hs.1) (Set.right_mem_Icc.mpr hs.1) hs.1
  · have hsub : Set.Icc s 1 ⊆ Set.Icc (0 : ℝ) 1 := Set.Icc_subset_Icc_left hs.1
    have hanti : AntitoneOn g (Set.Icc s 1) := by
      refine antitoneOn_of_deriv_nonpos (convex_Icc s 1) (hcontinuous.mono hsub)
        (fun t ht => (hg t (hsub (interior_subset ht))).differentiableAt.differentiableWithinAt) ?_
      intro t ht
      have hmem := interior_subset ht
      rw [(hg t (hsub hmem)).deriv]
      by_contra hrise
      exact hfall.not_ge (hslope s hs t (hsub hmem) hmem.1 (not_le.mp hrise).le)
    rw [← hone]
    exact hanti (Set.left_mem_Icc.mpr hs.2) (Set.right_mem_Icc.mpr hs.2) hs.2

/-- What vanishes at both ends of an interval and falls before it rises is not positive. -/
lemma nonpos_of_slope
    (hslope : ∀ s ∈ Set.Icc (0 : ℝ) 1, ∀ t ∈ Set.Icc (0 : ℝ) 1, s ≤ t → 0 ≤ g' s → 0 ≤ g' t)
    {s : ℝ} (hs : s ∈ Set.Icc (0 : ℝ) 1) : g s ≤ 0 := by
  have hmirror {t : ℝ} (ht : t ∈ Set.Icc (0 : ℝ) 1) : 1 - t ∈ Set.Icc (0 : ℝ) 1 :=
    ⟨by linarith [ht.2], by linarith [ht.1]⟩
  have hderiv : ∀ t ∈ Set.Icc (0 : ℝ) 1, HasDerivAt (fun t => -g (1 - t)) (g' (1 - t)) t := by
    intro t ht
    have hline : HasDerivAt (fun t : ℝ => 1 - t) (-1) t := by
      simpa using (hasDerivAt_id t).const_sub 1
    refine ((hg _ (hmirror ht)).comp t hline).neg.congr_deriv ?_
    ring
  have hnonneg := nonneg_of_slope hderiv (by simpa using hone) (by simpa using hzero)
    (fun t ht u hu htu => hslope _ (hmirror hu) _ (hmirror ht) (by linarith)) (hmirror hs)
  simpa using hnonneg

end

/-! ## Stretched latitudes -/

/-- How much a latitude with the given sine is stretched in the direction of its radius. -/
noncomputable def spread (m s : ℝ) : ℝ :=
  Real.sqrt ((1 - m) ^ 2 * (1 - s ^ 2) + (1 + m) ^ 2 * s ^ 2)

/-- The latitude whose tangent is `(1 + m) / (1 - m)` times that of a given one. -/
noncomputable def stretch (m xi : ℝ) : ℝ :=
  xi + Real.arctan (m * Real.sin (xi + xi) / (1 - m * Real.cos (xi + xi)))

lemma stretch_eq (m xi : ℝ) : stretch m xi =
    xi + Real.arctan (m * Real.sin (2 * xi) / (1 - m * Real.cos (2 * xi))) := by
  rw [stretch, ← two_mul]

section

variable {m s xi : ℝ} (hm : m ∈ Set.Ico (0 : ℝ) 1)

include hm

lemma spread_radicand_pos (s : ℝ) : 0 < (1 - m) ^ 2 * (1 - s ^ 2) + (1 + m) ^ 2 * s ^ 2 := by
  have hsq : 0 < (1 - m) ^ 2 := pow_pos (sub_pos.mpr hm.2) 2
  linarith [mul_nonneg (mul_nonneg zero_le_four hm.1) (sq_nonneg s)]

lemma spread_pos (s : ℝ) : 0 < spread m s := Real.sqrt_pos.mpr (spread_radicand_pos hm s)

lemma spread_sq (s : ℝ) :
    spread m s ^ 2 = (1 - m) ^ 2 * (1 - s ^ 2) + (1 + m) ^ 2 * s ^ 2 :=
  Real.sq_sqrt (spread_radicand_pos hm s).le

lemma spread_one : spread m 1 = 1 + m := by
  rw [spread, one_pow, sub_self, mul_zero, zero_add, mul_one, Real.sqrt_sq (by linarith [hm.1])]

lemma one_sub_mul_cos_pos (x : ℝ) : 0 < 1 - m * Real.cos x := by
  have hle := mul_le_mul_of_nonneg_left (Real.cos_le_one x) hm.1
  linarith [hm.2]

lemma sqrt_one_add_sq (xi : ℝ) :
    Real.sqrt (1 + (m * Real.sin (2 * xi) / (1 - m * Real.cos (2 * xi))) ^ 2) =
      spread m (Real.sin xi) / (1 - m * Real.cos (2 * xi)) := by
  have hterm := one_sub_mul_cos_pos hm (2 * xi)
  have hsq : 1 + (m * Real.sin (2 * xi) / (1 - m * Real.cos (2 * xi))) ^ 2 =
      (spread m (Real.sin xi) / (1 - m * Real.cos (2 * xi))) ^ 2 := by
    have hone := Real.sin_sq_add_cos_sq (2 * xi)
    have hcos := Real.cos_two_mul xi
    have hunit := Real.sin_sq_add_cos_sq xi
    rw [div_pow, div_pow, spread_sq hm]
    field_simp
    linear_combination m ^ 2 * hone - 2 * m * hcos - 4 * m * hunit
  rw [hsq, Real.sqrt_sq (div_nonneg (spread_pos hm _).le hterm.le)]

theorem sin_stretch (xi : ℝ) :
    Real.sin (stretch m xi) = (1 + m) * Real.sin xi / spread m (Real.sin xi) := by
  have hterm := one_sub_mul_cos_pos hm (2 * xi)
  have hspread := spread_pos hm (Real.sin xi)
  rw [stretch_eq, Real.sin_add, Real.sin_arctan, Real.cos_arctan, sqrt_one_add_sq hm]
  field_simp
  rw [Real.sin_two_mul, Real.cos_two_mul]
  ring

theorem cos_stretch (xi : ℝ) :
    Real.cos (stretch m xi) = (1 - m) * Real.cos xi / spread m (Real.sin xi) := by
  have hterm := one_sub_mul_cos_pos hm (2 * xi)
  have hspread := spread_pos hm (Real.sin xi)
  have hunit := Real.sin_sq_add_cos_sq xi
  rw [stretch_eq, Real.cos_add, Real.sin_arctan, Real.cos_arctan, sqrt_one_add_sq hm]
  field_simp
  rw [Real.sin_two_mul, Real.cos_two_mul]
  linear_combination -2 * m * Real.cos xi * hunit

/-- A stretched latitude is on the same side of the equator and of the pole. -/
lemma stretch_mem_Ico (hxi : xi ∈ Set.Ico 0 (Real.pi / 2)) :
    stretch m xi ∈ Set.Ico 0 (Real.pi / 2) := by
  have hterm := one_sub_mul_cos_pos hm (2 * xi)
  have hsin : 0 ≤ Real.sin (2 * xi) :=
    Real.sin_nonneg_of_nonneg_of_le_pi (by linarith [hxi.1]) (by linarith [hxi.2])
  have harctan : 0 ≤ Real.arctan (m * Real.sin (2 * xi) / (1 - m * Real.cos (2 * xi))) :=
    Real.arctan_nonneg.mpr (div_nonneg (mul_nonneg hm.1 hsin) hterm.le)
  refine ⟨stretch_eq m xi ▸ add_nonneg hxi.1 harctan, ?_⟩
  by_contra hpast
  have hle : Real.cos (stretch m xi) ≤ 0 := by
    refine Real.cos_nonpos_of_pi_div_two_le_of_le (not_lt.mp hpast) ?_
    have hlt := Real.arctan_lt_pi_div_two (m * Real.sin (2 * xi) / (1 - m * Real.cos (2 * xi)))
    rw [stretch_eq]
    linarith [hxi.2]
  rw [cos_stretch hm] at hle
  have hcos : 0 < Real.cos xi :=
    Real.cos_pos_of_mem_Ioo ⟨by linarith [hxi.1, Real.pi_pos], hxi.2⟩
  have hpos : 0 < (1 - m) * Real.cos xi / spread m (Real.sin xi) :=
    div_pos (mul_pos (sub_pos.mpr hm.2) hcos) (spread_pos hm _)
  linarith

/-- The sine of a stretched latitude, as a function of the sine. -/
lemma hasDerivAt_stretched (s : ℝ) : HasDerivAt (fun s => (1 + m) * s / spread m s)
    ((1 + m) * (1 - m) ^ 2 / spread m s ^ 3) s := by
  have hpos := spread_pos hm s
  have hradicand : HasDerivAt (fun s => (1 - m) ^ 2 * (1 - s ^ 2) + (1 + m) ^ 2 * s ^ 2)
      (8 * m * s) s := by
    refine ((((hasDerivAt_pow 2 s).const_sub 1).const_mul ((1 - m) ^ 2)).fun_add
      ((hasDerivAt_pow 2 s).const_mul ((1 + m) ^ 2))).congr_deriv ?_
    push_cast
    ring
  have hspread : HasDerivAt (spread m) (4 * m * s / spread m s) s := by
    refine (hradicand.sqrt (spread_radicand_pos hm s).ne').congr_deriv ?_
    rw [← spread]
    field_simp
    ring
  have hline : HasDerivAt (fun s => (1 + m) * s) (1 + m) s := by
    simpa using (hasDerivAt_id s).const_mul (1 + m)
  refine (hline.fun_div hspread hpos.ne').congr_deriv ?_
  have hsq := spread_sq hm s
  field_simp
  linear_combination (1 + m) * hsq

lemma stretched_mem (hs : s ∈ Set.Icc (0 : ℝ) 1) :
    (1 + m) * s / spread m s ∈ Set.Icc (0 : ℝ) 1 := by
  have hpos := spread_pos hm s
  have hone : 0 ≤ 1 + m := by linarith [hm.1]
  refine ⟨div_nonneg (mul_nonneg hone hs.1) hpos.le, (div_le_one hpos).mpr ?_⟩
  refine Real.le_sqrt_of_sq_le ?_
  rw [mul_pow]
  exact le_add_of_nonneg_left
    (mul_nonneg (sq_nonneg _) (sub_nonneg.mpr (pow_le_one₀ hs.1 hs.2)))

end

/-! ## The integral of a stretched latitude -/

namespace Authalic

/-- By how much half the slope of the integral of a stretched latitude falls short of `q`, up to a
positive factor, as a function of the squared sine. -/
noncomputable def shortfall (q e m w : ℝ) : ℝ :=
  q * ((1 - m) ^ 2 * (1 - w) + (1 - e * e) * (1 + m) ^ 2 * w) ^ 2 -
    (1 - e * e) * (1 + m) * (1 - m) ^ 2 *
      Real.sqrt ((1 - m) ^ 2 * (1 - w) + (1 + m) ^ 2 * w)

variable {e m s : ℝ}

lemma sq_mem_Icc (hs : s ∈ Set.Icc (0 : ℝ) 1) : s ^ 2 ∈ Set.Icc (0 : ℝ) 1 :=
  ⟨sq_nonneg s, pow_le_one₀ hs.1 hs.2⟩

/-- The denominators of the integral, at a stretched latitude. -/
lemma denominator_stretched (hm : m ∈ Set.Ico (0 : ℝ) 1) (s : ℝ) :
    (1 - m) ^ 2 * (1 - s ^ 2) + (1 - e * e) * (1 + m) ^ 2 * s ^ 2 =
      (1 - e * ((1 + m) * s / spread m s) * (e * ((1 + m) * s / spread m s))) *
        spread m s ^ 2 := by
  have hpos := spread_pos hm s
  have hsq := spread_sq hm s
  field_simp
  linear_combination -hsq

/-- The difference vanishes at the equator. -/
lemma stretched_zero (e m : ℝ) :
    integral ((1 + m) * 0 / spread m 0) e - 0 * integral 1 e = 0 := by
  rw [mul_zero, zero_div, integral_zero, zero_mul, sub_zero]

/-- The difference vanishes at the pole. -/
lemma stretched_one (hm : m ∈ Set.Ico (0 : ℝ) 1) (e : ℝ) :
    integral ((1 + m) * 1 / spread m 1) e - 1 * integral 1 e = 0 := by
  rw [spread_one hm, mul_one, div_self (by linarith [hm.1]), one_mul, sub_self]

variable (he : 1e-7 ≤ e) (he1 : e < 1) (hm : m ∈ Set.Ico (0 : ℝ) 1)

include he he1 hm

/-- The shortfall is a convex function. -/
lemma convexOn_shortfall {q : ℝ} (hq : 0 ≤ q) : ConvexOn ℝ (Set.Icc 0 1) (shortfall q e m) := by
  have he0 : 0 < e := lt_of_lt_of_le (by norm_num) he
  have hcomplement : 0 ≤ 1 - e * e := by nlinarith
  have hfactor : 0 ≤ (1 - e * e) * (1 + m) * (1 - m) ^ 2 :=
    mul_nonneg (mul_nonneg hcomplement (by linarith [hm.1])) (sq_nonneg _)
  -- The square of a line is convex and the root of one is concave.
  have hsquare : ConvexOn ℝ (Set.Icc (0 : ℝ) 1)
      fun w => ((1 - m) ^ 2 * (1 - w) + (1 - e * e) * (1 + m) ^ 2 * w) ^ 2 := by
    refine ⟨convex_Icc 0 1, fun x _ y _ a b ha hb hab => ?_⟩
    obtain rfl : b = 1 - a := by linarith
    simp only [smul_eq_mul]
    nlinarith [mul_nonneg (mul_nonneg ha hb)
      (sq_nonneg (((1 - e * e) * (1 + m) ^ 2 - (1 - m) ^ 2) * (x - y)))]
  have hroot : ConcaveOn ℝ (Set.Icc (0 : ℝ) 1)
      fun w => Real.sqrt ((1 - m) ^ 2 * (1 - w) + (1 + m) ^ 2 * w) := by
    refine ⟨convex_Icc 0 1, fun x hx y hy a b ha hb hab => ?_⟩
    have hmem {w : ℝ} (hw : w ∈ Set.Icc (0 : ℝ) 1) :
        0 ≤ (1 - m) ^ 2 * (1 - w) + (1 + m) ^ 2 * w :=
      add_nonneg (mul_nonneg (sq_nonneg _) (sub_nonneg.mpr hw.2)) (mul_nonneg (sq_nonneg _) hw.1)
    refine (Real.strictConcaveOn_sqrt.concaveOn.2 (hmem hx) (hmem hy) ha hb hab).trans_eq ?_
    obtain rfl : b = 1 - a := by linarith
    simp only [smul_eq_mul]
    congr 1
    ring
  exact (hsquare.smul hq).sub (hroot.smul hfactor)

/-- How the integral of a stretched latitude changes, beside a multiple of the sine. -/
lemma hasDerivAt_integral_stretched (hs : s ∈ Set.Icc (0 : ℝ) 1) :
    HasDerivAt (fun s => integral ((1 + m) * s / spread m s) e - s * integral 1 e)
      (-(2 * shortfall (integral 1 e / 2) e m (s ^ 2)) /
        ((1 - m) ^ 2 * (1 - s ^ 2) + (1 - e * e) * (1 + m) ^ 2 * s ^ 2) ^ 2) s := by
  have hpos := spread_pos hm s
  have hmem : (1 + m) * s / spread m s ∈ Set.Icc (-1 : ℝ) 1 :=
    Set.Icc_subset_Icc_left (by norm_num) (stretched_mem hm hs)
  have hterm := one_sub_sq_pos (le_trans (by norm_num) he) he1 hmem
  have hline : HasDerivAt (fun s => s * integral 1 e) (integral 1 e) s := by
    simpa using (hasDerivAt_id s).mul_const (integral 1 e)
  refine (((hasDerivAt_integral he he1 hmem).comp s (hasDerivAt_stretched hm s)).sub
    hline).congr_deriv ?_
  rw [shortfall, denominator_stretched hm, ← spread]
  generalize 1 - e * ((1 + m) * s / spread m s) * (e * ((1 + m) * s / spread m s)) = term at hterm
  field_simp
  ring

/-- Its slope is not negative where there is no shortfall. -/
lemma slope_nonneg_iff (hs : s ∈ Set.Icc (0 : ℝ) 1) :
    0 ≤ -(2 * shortfall (integral 1 e / 2) e m (s ^ 2)) /
        ((1 - m) ^ 2 * (1 - s ^ 2) + (1 - e * e) * (1 + m) ^ 2 * s ^ 2) ^ 2 ↔
      shortfall (integral 1 e / 2) e m (s ^ 2) ≤ 0 := by
  have hmem : (1 + m) * s / spread m s ∈ Set.Icc (-1 : ℝ) 1 :=
    Set.Icc_subset_Icc_left (by norm_num) (stretched_mem hm hs)
  have hterm := one_sub_sq_pos (le_trans (by norm_num) he) he1 hmem
  have hpos : 0 < ((1 - m) ^ 2 * (1 - s ^ 2) + (1 - e * e) * (1 + m) ^ 2 * s ^ 2) ^ 2 := by
    rw [denominator_stretched hm]
    exact pow_pos (mul_pos hterm (pow_pos (spread_pos hm s) 2)) 2
  rw [le_div_iff₀ hpos, zero_mul]
  constructor <;> intro h <;> linarith

/-- When there is no shortfall at the equator, the integral of a stretched latitude is at least a
multiple of the sine. -/
theorem le_integral_stretched (hpole : 0 ≤ integral 1 e)
    (hequator : integral 1 e * (1 - m) ≤ 2 * (1 - e * e) * (1 + m)) (hs : s ∈ Set.Icc (0 : ℝ) 1) :
    s * integral 1 e ≤ integral ((1 + m) * s / spread m s) e := by
  have hconvex := convexOn_shortfall he he1 hm (div_nonneg hpole zero_le_two)
  have hcomplement := sub_pos.mpr hm.2
  have hstart : shortfall (integral 1 e / 2) e m 0 ≤ 0 := by
    have hroot : Real.sqrt ((1 - m) ^ 2 * (1 - 0) + (1 + m) ^ 2 * 0) = 1 - m := by
      rw [sub_zero, mul_one, mul_zero, add_zero, Real.sqrt_sq hcomplement.le]
    rw [shortfall, hroot]
    nlinarith [mul_le_mul_of_nonneg_right hequator (pow_pos hcomplement 3).le]
  have hslope := nonneg_of_slope (fun t ht => hasDerivAt_integral_stretched he he1 hm ht)
    (stretched_zero e m) (stretched_one hm e) (fun t ht u hu htu hrise => ?_) hs
  · linarith
  · rw [slope_nonneg_iff he he1 hm ht]
    rw [slope_nonneg_iff he he1 hm hu] at hrise
    have hbetween := hconvex.le_max_of_mem_Icc (Set.left_mem_Icc.mpr zero_le_one) (sq_mem_Icc hu)
      ⟨sq_nonneg t, pow_le_pow_left₀ ht.1 htu 2⟩
    exact hbetween.trans (max_le hstart hrise)

/-- When there is none at the pole, the integral of a stretched latitude is at most that multiple of
the sine. -/
theorem integral_stretched_le (hpole : 0 ≤ integral 1 e)
    (hnorth : integral 1 e * (1 - e * e) * (1 + m) ^ 2 ≤ 2 * (1 - m) ^ 2)
    (hs : s ∈ Set.Icc (0 : ℝ) 1) :
    integral ((1 + m) * s / spread m s) e ≤ s * integral 1 e := by
  have he0 : 0 < e := lt_of_lt_of_le (by norm_num) he
  have hconvex := convexOn_shortfall he he1 hm (div_nonneg hpole zero_le_two)
  have hend : shortfall (integral 1 e / 2) e m 1 ≤ 0 := by
    have hroot : Real.sqrt ((1 - m) ^ 2 * (1 - 1) + (1 + m) ^ 2 * 1) = 1 + m := by
      rw [sub_self, mul_zero, zero_add, mul_one, Real.sqrt_sq (by linarith [hm.1])]
    have hfactor : 0 ≤ (1 - e * e) * (1 + m) ^ 2 := mul_nonneg (by nlinarith) (sq_nonneg _)
    rw [shortfall, hroot]
    nlinarith [mul_le_mul_of_nonneg_right hnorth hfactor]
  have hslope := nonpos_of_slope (fun t ht => hasDerivAt_integral_stretched he he1 hm ht)
    (stretched_zero e m) (stretched_one hm e) (fun t ht u hu htu hrise => ?_) hs
  · linarith
  · rw [slope_nonneg_iff he he1 hm hu]
    rw [slope_nonneg_iff he he1 hm ht] at hrise
    have hbetween := hconvex.le_max_of_mem_Icc (sq_mem_Icc ht) (Set.right_mem_Icc.mpr zero_le_one)
      ⟨pow_le_pow_left₀ ht.1 htu 2, pow_le_one₀ hu.1 hu.2⟩
    exact hbetween.trans (max_le hrise hend)

end Authalic

/-! ## The integral at the pole -/

/-- The first terms of the series of a logarithm, and a bound for the rest. -/
lemma log_quotient_le {r : ℝ} (hr : r ∈ Set.Ico (0 : ℝ) 1) :
    Real.log ((1 + r) / (1 - r)) ≤ 2 * (r + r ^ 3 / 3 + r ^ 5 / (5 * (1 - r ^ 2))) := by
  set f : ℝ → ℝ := fun t =>
    2 * (t + t ^ 3 / 3 + t ^ 5 / (5 * (1 - t ^ 2))) - (Real.log (1 + t) - Real.log (1 - t)) with hf
  -- The difference vanishes at zero, and the first terms cancel in its slope.
  have hderiv : ∀ t ∈ Set.Ico (0 : ℝ) 1, HasDerivAt f (4 * t ^ 6 / (5 * (1 - t ^ 2) ^ 2)) t := by
    intro t ⟨ht0, ht1⟩
    have hplus : 0 < 1 + t := by linarith
    have hminus : 0 < 1 - t := by linarith
    have hsq : 1 - t ^ 2 = (1 - t) * (1 + t) := by ring
    have hnonzero : 5 * (1 - t ^ 2) ≠ 0 := by
      rw [hsq]
      positivity
    have hquotient := (hasDerivAt_pow 5 t).fun_div
      (((hasDerivAt_pow 2 t).const_sub 1).const_mul 5) hnonzero
    have hpolynomial := (((hasDerivAt_id t).fun_add ((hasDerivAt_pow 3 t).div_const 3)).fun_add
      hquotient).const_mul 2
    have hlogarithms := (((hasDerivAt_id t).const_add 1).log hplus.ne').fun_sub
      (((hasDerivAt_id t).const_sub 1).log hminus.ne')
    refine (hpolynomial.fun_sub hlogarithms).congr_deriv ?_
    simp only [id_eq]
    push_cast
    rw [hsq]
    field_simp
    ring
  have hmono : MonotoneOn f (Set.Ico 0 1) := by
    refine monotoneOn_of_deriv_nonneg (convex_Ico 0 1)
      (fun t ht => (hderiv t ht).continuousAt.continuousWithinAt)
      (fun t ht => (hderiv t (interior_subset ht)).differentiableAt.differentiableWithinAt) ?_
    intro t ht
    rw [(hderiv t (interior_subset ht)).deriv]
    positivity
  have hle := hmono (Set.left_mem_Ico.mpr zero_lt_one) hr hr.1
  have hplus : 0 < 1 + r := by linarith [hr.1]
  rw [Real.log_div hplus.ne' (by linarith [hr.2])]
  simp only [hf] at hle
  norm_num at hle
  linarith

namespace Ellipsoid

variable {e : Ellipsoid ℝ}

section

variable {r : ℝ} (hr : r ∈ Set.Ioo (0 : ℝ) 1) (hthird : r ^ 2 = e.thirdFlattening)

include hr hthird

/-- The eccentricity, by the root of the third flattening. -/
lemma eccentricity_of_sq : e.eccentricity = 2 * r / (1 + r ^ 2) := by
  have hr0 := hr.1
  have hmul := eccentricitySq_mul (hthird ▸ pow_pos hr0 2)
  rw [← hthird] at hmul
  have hsq : e.eccentricitySq = (2 * r / (1 + r ^ 2)) ^ 2 := by
    rw [div_pow, eq_div_iff (by positivity)]
    linear_combination hmul
  change Real.sqrt e.eccentricitySq = _
  rw [hsq, Real.sqrt_sq (by positivity)]

/-- The integral at the pole, by the root of the third flattening. -/
lemma poleIntegral_of_sq (hecc : 1e-7 ≤ e.eccentricity) :
    e.poleIntegral * (1 + r ^ 2) =
      1 + r ^ 2 + (1 - r ^ 2) ^ 2 / (2 * r) * Real.log ((1 + r) / (1 - r)) := by
  have heccentricity := eccentricity_of_sq hr hthird
  obtain ⟨hr0, hr1⟩ := hr
  have hdifference : 0 < 1 - r := sub_pos.mpr hr1
  have hminus : 0 < 1 - r ^ 2 := by nlinarith
  have hlog : Real.log ((1 - e.eccentricity * 1) / (1 + e.eccentricity * 1)) =
      -(2 * Real.log ((1 + r) / (1 - r))) := by
    have hsquare : (1 - e.eccentricity * 1) / (1 + e.eccentricity * 1) =
        (((1 + r) / (1 - r)) ^ 2)⁻¹ := by
      rw [heccentricity]
      field_simp
      ring
    rw [hsquare, Real.log_inv, Real.log_pow]
    norm_num
  have hcomplement : 1 - e.eccentricity * e.eccentricity = ((1 - r ^ 2) / (1 + r ^ 2)) ^ 2 := by
    rw [heccentricity]
    field_simp
    ring
  change Authalic.integral 1 e.eccentricity * _ = _
  rw [Authalic.integral_of_le hecc, hlog, mul_one, hcomplement, heccentricity]
  field_simp
  ring

end

/-- The integral at the pole, as a function of the third flattening. -/
theorem poleIntegral_mul_le (hecc : 1e-7 ≤ e.eccentricity)
    (hn : e.thirdFlattening ∈ Set.Ioo (0 : ℝ) 1) :
    e.poleIntegral * (1 + e.thirdFlattening) ≤
      2 - 2 / 3 * e.thirdFlattening + 8 / 15 * e.thirdFlattening ^ 2 +
        2 / 15 * e.thirdFlattening ^ 3 := by
  -- With the root of the third flattening as the variable the eccentricity is a rational function.
  obtain ⟨r, hr0, hr⟩ : ∃ r : ℝ, 0 < r ∧ r ^ 2 = e.thirdFlattening :=
    ⟨_, Real.sqrt_pos.mpr hn.1, Real.sq_sqrt hn.1.le⟩
  have hr1 : r < 1 := by nlinarith [hn.2]
  have hminus : 0 < 1 - r ^ 2 := by nlinarith
  have hbound := log_quotient_le ⟨hr0.le, hr1⟩
  have hfactor : 0 ≤ (1 - r ^ 2) ^ 2 / (2 * r) := by positivity
  have hvalue := poleIntegral_of_sq ⟨hr0, hr1⟩ hr hecc
  rw [← hr]
  calc e.poleIntegral * (1 + r ^ 2)
      ≤ 1 + r ^ 2 + (1 - r ^ 2) ^ 2 / (2 * r) *
          (2 * (r + r ^ 3 / 3 + r ^ 5 / (5 * (1 - r ^ 2)))) := by
        rw [hvalue]
        gcongr
    _ = 2 - 2 / 3 * r ^ 2 + 8 / 15 * (r ^ 2) ^ 2 + 2 / 15 * (r ^ 2) ^ 3 := by
        field_simp
        ring

variable {phi m : ℝ}

lemma mem_Ioo_of_mem_Ico (hphi : phi ∈ Set.Ico 0 (Real.pi / 2)) :
    phi ∈ Set.Ioo (-(Real.pi / 2)) (Real.pi / 2) :=
  ⟨by linarith [hphi.1, Real.pi_pos], hphi.2⟩

lemma cos_pos_of_mem_Ico (hphi : phi ∈ Set.Ico 0 (Real.pi / 2)) : 0 < Real.cos phi :=
  Real.cos_pos_of_mem_Ioo (mem_Ioo_of_mem_Ico hphi)

lemma sin_mem_of_mem_Ico (hphi : phi ∈ Set.Ico 0 (Real.pi / 2)) :
    Real.sin phi ∈ Set.Icc (0 : ℝ) 1 :=
  ⟨Real.sin_nonneg_of_nonneg_of_le_pi hphi.1 (by linarith [hphi.2, Real.pi_pos]),
    Real.sin_le_one phi⟩

lemma Flattened.authalic_mem_Ico (he : e.Flattened) (hphi : phi ∈ Set.Ico 0 (Real.pi / 2)) :
    e.authalic phi ∈ Set.Ico 0 (Real.pi / 2) := by
  have hzero : (0 : ℝ) ∈ Set.Icc (-(Real.pi / 2)) (Real.pi / 2) :=
    ⟨by linarith [Real.pi_pos], by linarith [Real.pi_pos]⟩
  have hle := he.authalic_strictMonoOn.monotoneOn hzero
    (Set.Ioo_subset_Icc_self (mem_Ioo_of_mem_Ico hphi)) hphi.1
  rw [authalic_zero] at hle
  exact ⟨hle, (he.authalic_mem_Ioo (mem_Ioo_of_mem_Ico hphi)).2⟩

/-! ## Between two stretched latitudes -/

variable (hecc : 1e-7 ≤ e.eccentricity) (hseries : e.usesSeries = false)
  (hm : m ∈ Set.Ico (0 : ℝ) 1) (hphi : phi ∈ Set.Ico 0 (Real.pi / 2))

include hecc hseries hm hphi

/-- The latitude is not past a stretch of its authalic latitude that is large enough near the
equator. -/
theorem Flattened.le_stretch (he : e.Flattened)
    (hequator : e.poleIntegral * (1 - m) ≤ 2 * (1 - e.eccentricitySq) * (1 + m)) :
    phi ≤ stretch m (e.authalic phi) := by
  have hxi := he.authalic_mem_Ico hphi
  rw [← he.eccentricity_mul_self] at hequator
  have hle := Authalic.le_integral_stretched hecc he.eccentricity_lt_one hm he.poleIntegral_pos.le
    hequator (sin_mem_of_mem_Ico hxi)
  rw [← sin_stretch hm] at hle
  have hvalue := he.sin_authalic_mul hseries (cos_pos_of_mem_Ico hphi).ne'
  have hsin : Real.sin phi ≤ Real.sin (stretch m (e.authalic phi)) :=
    (he.authalicIntegral_strictMonoOn.le_iff_le (Real.sin_mem_Icc _) (Real.sin_mem_Icc _)).mp
      (hvalue.symm.trans_le hle)
  exact (Real.strictMonoOn_sin.le_iff_le (Set.Ioo_subset_Icc_self (mem_Ioo_of_mem_Ico hphi))
    (Set.Ioo_subset_Icc_self (mem_Ioo_of_mem_Ico (stretch_mem_Ico hm hxi)))).mp hsin

/-- The latitude is not short of a stretch of its authalic latitude that is small enough near the
pole. -/
theorem Flattened.stretch_le (he : e.Flattened)
    (hnorth : e.poleIntegral * (1 - e.eccentricitySq) * (1 + m) ^ 2 ≤ 2 * (1 - m) ^ 2) :
    stretch m (e.authalic phi) ≤ phi := by
  have hxi := he.authalic_mem_Ico hphi
  rw [← he.eccentricity_mul_self] at hnorth
  have hle := Authalic.integral_stretched_le hecc he.eccentricity_lt_one hm he.poleIntegral_pos.le
    hnorth (sin_mem_of_mem_Ico hxi)
  rw [← sin_stretch hm] at hle
  have hvalue := he.sin_authalic_mul hseries (cos_pos_of_mem_Ico hphi).ne'
  have hsin : Real.sin (stretch m (e.authalic phi)) ≤ Real.sin phi :=
    (he.authalicIntegral_strictMonoOn.le_iff_le (Real.sin_mem_Icc _) (Real.sin_mem_Icc _)).mp
      (hle.trans_eq hvalue)
  exact (Real.strictMonoOn_sin.le_iff_le
    (Set.Ioo_subset_Icc_self (mem_Ioo_of_mem_Ico (stretch_mem_Ico hm hxi)))
    (Set.Ioo_subset_Icc_self (mem_Ioo_of_mem_Ico hphi))).mp hsin

end Ellipsoid

end EqualArea
