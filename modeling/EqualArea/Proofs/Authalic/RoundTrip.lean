import EqualArea.Proofs.Authalic.Bijection
import EqualArea.Proofs.Authalic.Start

/-!
# The round trip of the authalic latitude

How well the way back from the authalic latitude undoes the way forth, in exact arithmetic, on the
ellipsoids that are converted by the closed form.

* `Ellipsoid.geographic` — the geographic latitude, with the ellipsoid's own constants.
* `Ellipsoid.Moderate.authalic_le` — the authalic latitude is nearer to the equator than the
  latitude.
* `Ellipsoid.Moderate.abs_authalic_sub_authalic_le` — it changes at most fourteen times as fast.
* `Ellipsoid.Moderate.geographic_spec` — up to a third flattening of nine twentieths, the way back
  ends between the poles and close to the solution.
* `Ellipsoid.geographicLatitude_of_pole`, `Ellipsoid.start_pi_div_four_gt` — a start that is past
  the pole is what the way back ends with, and on a very flat ellipsoid there is one.

**Design.**  The coefficients of the series are polynomials of the third flattening, and on a very
flat ellipsoid they are no longer small.  The iteration takes a latitude past the pole for one at
the pole and leaves it alone.  Up to nine twentieths the start is within the range in which every
correction squares the error.  Beyond, the stretched latitudes on either side of the solution are
too far apart to tell, until the start is past the pole.
-/

namespace EqualArea

namespace Ellipsoid

open Series

variable {e : Ellipsoid ℝ} {phi xi : ℝ}

lemma geographicLatitude_of_closed (h : e.usesSeries = false) (series : Authalic.Coefficients ℝ)
    (poleIntegral xi : ℝ) :
    e.geographicLatitude series poleIntegral xi =
      Authalic.refine e.eccentricitySq (Real.sin xi * poleIntegral) Authalic.maxSteps
        (xi + sinesFrom (2 * xi) 1 series.inverse) := by
  rw [← sineSumOfTrig_eq]
  exact if_neg (by simp [h])

/-- The iteration leaves alone what is at a pole or past it. -/
lemma refine_of_pole {eccentricitySq q start : ℝ} (hpole : Real.pi / 2 ≤ |start|) (steps : ℕ) :
    Authalic.refine eccentricitySq q steps start = start := by
  cases steps with
  | zero => rfl
  | succ steps =>
    refine if_pos ?_
    rw [Exact.quarterTurn_eq, Exact.abs_eq, Exact.ofScientific_eq]
    have hpositive : (0 : ℝ) < 1e-12 := by norm_num
    linarith

/-- A start at a pole or past it is what the way back ends with. -/
theorem geographicLatitude_of_pole (h : e.usesSeries = false) (series : Authalic.Coefficients ℝ)
    (poleIntegral : ℝ) (hpole : Real.pi / 2 ≤ |xi + sinesFrom (2 * xi) 1 series.inverse|) :
    e.geographicLatitude series poleIntegral xi = xi + sinesFrom (2 * xi) 1 series.inverse := by
  rw [geographicLatitude_of_closed h, refine_of_pole hpole]

/-- The geographic latitude of an authalic latitude, with the ellipsoid's own constants. -/
noncomputable def geographic (e : Ellipsoid ℝ) (xi : ℝ) : ℝ :=
  e.geographicLatitude e.authalicCoefficients e.poleIntegral xi

lemma geographic_neg (e : Ellipsoid ℝ) (xi : ℝ) : e.geographic (-xi) = -e.geographic xi :=
  e.geographicLatitude_neg _ _ xi

lemma geographic_pi_div_two (h : e.usesSeries = false) :
    e.geographic (Real.pi / 2) = Real.pi / 2 := by
  have hseries := abs_sinesFrom_le (2 * (Real.pi / 2)) 1 e.authalicCoefficients.inverse
  rw [mul_div_cancel₀ _ two_ne_zero, Real.sin_pi, abs_zero, mul_zero, abs_nonpos_iff] at hseries
  have hpole : Real.pi / 2 ≤
      |Real.pi / 2 + sinesFrom (2 * (Real.pi / 2)) 1 e.authalicCoefficients.inverse| := by
    rw [mul_div_cancel₀ _ two_ne_zero, hseries, add_zero]
    exact le_abs_self _
  rw [geographic, geographicLatitude_of_pole h _ _ hpole, mul_div_cancel₀ _ two_ne_zero, hseries,
    add_zero]

namespace Moderate

/-- The integral at the pole is not above that of the sphere. -/
lemma poleIntegral_le_two (h : e.Moderate) : e.poleIntegral ≤ 2 := by
  have hn0 := h.thirdFlattening_pos
  have hn1 := h.thirdFlattening_le
  have hpole := poleIntegral_mul_le h.le_eccentricity ⟨hn0, by linarith⟩
  refine le_of_mul_le_mul_right (hpole.trans ?_) (by linarith : 0 < 1 + e.thirdFlattening)
  nlinarith [pow_nonneg hn0.le 2]

/-- The authalic latitude is nearer to the equator than the latitude. -/
lemma authalic_le (h : e.Moderate) (hphi : phi ∈ Set.Ico 0 (Real.pi / 2)) :
    e.authalic phi ≤ phi := by
  have hstretch := h.flattened.stretch_le h.le_eccentricity h.usesSeries_eq_false
    (Set.left_mem_Ico.mpr zero_lt_one) hphi (by
      have hle := h.poleIntegral_le_two
      have hpole := h.flattened.poleIntegral_pos
      nlinarith [h.flattened.pos, h.flattened.lt_one])
  simpa [stretch] using hstretch

/-- The authalic latitude is no nearer to a pole than the latitude. -/
lemma cos_le_cos_authalic (h : e.Moderate)
    (hphi : phi ∈ Set.Ioo (-(Real.pi / 2)) (Real.pi / 2)) :
    Real.cos phi ≤ Real.cos (e.authalic phi) := by
  rcases le_total 0 phi with hnonneg | hnonpos
  · have hmem : phi ∈ Set.Ico 0 (Real.pi / 2) := ⟨hnonneg, hphi.2⟩
    exact Real.cos_le_cos_of_nonneg_of_le_pi (h.flattened.authalic_mem_Ico hmem).1
      (by linarith [hphi.2, Real.pi_pos]) (h.authalic_le hmem)
  · have hmem : -phi ∈ Set.Ico 0 (Real.pi / 2) := ⟨by linarith, by linarith [hphi.1]⟩
    have hle := Real.cos_le_cos_of_nonneg_of_le_pi (h.flattened.authalic_mem_Ico hmem).1
      (by linarith [hmem.2, Real.pi_pos]) (h.authalic_le hmem)
    rwa [authalic_neg, Real.cos_neg, Real.cos_neg] at hle

/-- How flat the ellipsoid is at most, in terms of the squared eccentricity. -/
lemma le_complement (h : e.Moderate) : 1 / 7 ≤ 1 - e.eccentricitySq := by
  have hn0 := h.thirdFlattening_pos
  have hn1 := h.thirdFlattening_le
  refine le_of_mul_le_mul_right ?_ (pow_pos (by linarith : 0 < 1 + e.thirdFlattening) 2)
  rw [h.complement_mul]
  nlinarith

/-- The authalic latitude changes at most fourteen times as fast as the latitude. -/
theorem abs_authalic_sub_authalic_le (h : e.Moderate) {psi : ℝ}
    (hphi : phi ∈ Set.Ioo (-(Real.pi / 2)) (Real.pi / 2))
    (hpsi : psi ∈ Set.Ioo (-(Real.pi / 2)) (Real.pi / 2)) :
    |e.authalic phi - e.authalic psi| ≤ 14 * |phi - psi| := by
  have he := h.flattened
  have hderiv : ∀ t ∈ Set.Ioo (-(Real.pi / 2)) (Real.pi / 2),
      ∃ slope, HasDerivAt e.authalic slope t ∧ |slope| ≤ 14 := by
    intro t ht
    have hcos := Real.cos_pos_of_mem_Ioo ht
    obtain ⟨slope, hslope, hvalue⟩ := he.hasDerivAt_authalic h.flattening_lt_one
      h.thirdFlattening_ge hcos.ne'
    have hnear : Real.cos t * 1 ≤ Real.cos (e.authalic t) * e.poleIntegral :=
      mul_le_mul (h.cos_le_cos_authalic ht) he.one_le_poleIntegral zero_le_one
        (hcos.le.trans (h.cos_le_cos_authalic ht))
    have hpos : 0 < Real.cos (e.authalic t) * e.poleIntegral := lt_of_lt_of_le (by positivity) hnear
    have hdensity := he.abs_density_le t
    have hcomplement := h.le_complement
    rw [abs_of_pos hcos] at hdensity
    refine ⟨slope, hslope, le_of_mul_le_mul_right ?_ hpos⟩
    calc |slope| * (Real.cos (e.authalic t) * e.poleIntegral)
        = |2 * e.density t| := by
          rw [← abs_of_pos hpos, ← abs_mul, ← mul_assoc, hvalue, density]
          congr 1
          ring
      _ = 2 * |e.density t| := by rw [abs_mul, abs_two]
      _ ≤ 14 * (Real.cos (e.authalic t) * e.poleIntegral) := by
          nlinarith [abs_nonneg (e.density t)]
  choose! slope hslope hbound using hderiv
  have hmean := Convex.norm_image_sub_le_of_norm_hasDerivWithin_le
    (fun t ht => (hslope t ht).hasDerivWithinAt) hbound (convex_Ioo _ _) hpsi hphi
  simpa only [Real.norm_eq_abs] using hmean

/-- The way back ends between the poles and close to the solution, for an authalic latitude north
of the equator. -/
lemma geographic_spec_of_nonneg (h : e.Moderate) (hxi : xi ∈ Set.Ico 0 (Real.pi / 2)) :
    e.geographic xi ∈ Set.Icc (-(Real.pi / 2)) (Real.pi / 2) ∧
      |e.authalic (e.geographic xi) - xi| ≤ 1e-9 := by
  obtain ⟨root, hroot, rfl⟩ := h.flattened.exists_authalic_eq hxi
  have hmem := mem_Ioo_of_mem_Ico hroot
  have hcos := cos_pos_of_mem_Ico hroot
  -- The iteration starts close enough to the solution, and each step squares the bound.
  have hstart : 2.03 * |e.authalic root +
      sinesFrom (2 * e.authalic root) 1 e.authalicCoefficients.inverse - root| ≤
        0.9541 * Real.cos root := by
    linarith [h.abs_start_sub_le hroot]
  obtain ⟨hstay, hend⟩ := h.flattened.refine_error h.le_eccentricity hmem (by norm_num) le_rfl
    Authalic.maxSteps hstart
  rw [← h.flattened.sin_authalic_mul h.usesSeries_eq_false hcos.ne',
    ← geographicLatitude_of_closed h.usesSeries_eq_false] at hstay hend
  change 2.03 * |e.geographic (e.authalic root) - root| ≤ _ at hstay
  change |e.geographic (e.authalic root) - root| ≤ _ at hend
  have hinside : e.geographic (e.authalic root) ∈ Set.Ioo (-(Real.pi / 2)) (Real.pi / 2) :=
    abs_lt.mp (abs_lt_of_near hmem (by linarith))
  have hsmall : |e.geographic (e.authalic root) - root| ≤ 1e-12 := by
    refine hend.trans (max_le le_rfl ?_)
    calc (0.9541 : ℝ) ^ 2 ^ Authalic.maxSteps ≤ 0.9541 ^ (100 * 7) :=
          pow_le_pow_of_le_one (by norm_num) (by norm_num) (by decide)
      _ = (0.9541 ^ 100) ^ 7 := pow_mul _ _ _
      _ ≤ 0.01 ^ 7 := by
          gcongr
          norm_num
      _ ≤ 1e-12 := by norm_num
  refine ⟨Set.Ioo_subset_Icc_self hinside, ?_⟩
  calc |e.authalic (e.geographic (e.authalic root)) - e.authalic root|
      ≤ 14 * |e.geographic (e.authalic root) - root| := h.abs_authalic_sub_authalic_le hinside hmem
    _ ≤ 14 * 1e-12 := by gcongr
    _ ≤ 1e-9 := by norm_num

/-- The way back ends between the poles and close to the solution. -/
theorem geographic_spec (h : e.Moderate) (hxi : xi ∈ Set.Icc (-(Real.pi / 2)) (Real.pi / 2)) :
    e.geographic xi ∈ Set.Icc (-(Real.pi / 2)) (Real.pi / 2) ∧
      |e.authalic (e.geographic xi) - xi| ≤ 1e-9 := by
  have hnorth {xi : ℝ} (hxi : xi ∈ Set.Icc 0 (Real.pi / 2)) :
      e.geographic xi ∈ Set.Icc (-(Real.pi / 2)) (Real.pi / 2) ∧
        |e.authalic (e.geographic xi) - xi| ≤ 1e-9 := by
    rcases hxi.2.lt_or_eq with hlt | rfl
    · exact h.geographic_spec_of_nonneg ⟨hxi.1, hlt⟩
    · rw [geographic_pi_div_two h.usesSeries_eq_false, h.flattened.authalic_pi_div_two, sub_self,
        abs_zero]
      exact ⟨⟨by linarith [hxi.1], le_rfl⟩, by norm_num⟩
  rcases le_total 0 xi with hnonneg | hnonpos
  · exact hnorth ⟨hnonneg, hxi.2⟩
  · obtain ⟨⟨hlow, hhigh⟩, hclose⟩ := hnorth ⟨neg_nonneg.mpr hnonpos, by linarith [hxi.1]⟩
    rw [geographic_neg] at hlow hhigh hclose
    rw [authalic_neg, ← neg_sub', abs_neg] at hclose
    exact ⟨⟨by linarith, by linarith⟩, hclose⟩

end Moderate

/-! ## Very flat ellipsoids -/

/-- On a very flat ellipsoid the iteration starts past the pole. -/
lemma start_pi_div_four_gt (h : 0.61 ≤ e.thirdFlattening) :
    Real.pi / 2 < Real.pi / 4 + sinesFrom (2 * (Real.pi / 4)) 1 e.authalicCoefficients.inverse := by
  have hseries := Authalic.lt_sinesFrom_inverse h
  change 0.79 < sinesFrom (2 * (Real.pi / 4)) 1 e.authalicCoefficients.inverse at hseries
  linarith [Real.pi_lt_d2]

/-- From the third flattening at which the closed form is taken up to nine twentieths, the way back
from an authalic latitude ends between the poles, at a latitude whose authalic latitude is the given
one but for a nanoradian.  On a very flat ellipsoid it ends past the pole. -/
theorem geographic_accuracy (e : Ellipsoid ℝ) (hflat : e.flattening < 1) :
    (e.thirdFlattening ∈ Set.Icc 0.01 0.45 → ∀ xi ∈ Set.Icc (-(Real.pi / 2)) (Real.pi / 2),
      e.geographic xi ∈ Set.Icc (-(Real.pi / 2)) (Real.pi / 2) ∧
        |e.authalic (e.geographic xi) - xi| ≤ 1e-9) ∧
    (0.61 ≤ e.thirdFlattening → Real.pi / 2 < e.geographic (Real.pi / 4)) := by
  refine ⟨fun hthird xi hxi => ?_, fun hthird => ?_⟩
  · exact Moderate.geographic_spec ⟨hflat, hthird.1, hthird.2⟩ hxi
  · have hstart := start_pi_div_four_gt hthird
    have hseries := usesSeries_eq_false (e := e) (le_trans (by norm_num) hthird)
    rw [geographic, geographicLatitude_of_pole hseries _ _ (hstart.le.trans (le_abs_self _))]
    exact hstart

/-- One axis shorter than the other by one, six and nine tenths. -/
theorem geographic_accuracy_of_tenths :
    |(⟨1, 0.1⟩ : Ellipsoid ℝ).authalic ((⟨1, 0.1⟩ : Ellipsoid ℝ).geographic (Real.pi / 4)) -
        Real.pi / 4| ≤ 1e-9 ∧
      |(⟨1, 0.6⟩ : Ellipsoid ℝ).authalic ((⟨1, 0.6⟩ : Ellipsoid ℝ).geographic (Real.pi / 4)) -
        Real.pi / 4| ≤ 1e-9 ∧
      Real.pi / 2 < (⟨1, 0.9⟩ : Ellipsoid ℝ).geographic (Real.pi / 4) := by
  have hpi := Real.pi_pos
  have hxi : Real.pi / 4 ∈ Set.Icc (-(Real.pi / 2)) (Real.pi / 2) := ⟨by linarith, by linarith⟩
  have hone : (⟨1, 0.1⟩ : Ellipsoid ℝ).thirdFlattening ∈ Set.Icc (0.01 : ℝ) 0.45 := by
    norm_num [thirdFlattening]
  have hsix : (⟨1, 0.6⟩ : Ellipsoid ℝ).thirdFlattening ∈ Set.Icc (0.01 : ℝ) 0.45 := by
    norm_num [thirdFlattening]
  have hnine : (0.61 : ℝ) ≤ (⟨1, 0.9⟩ : Ellipsoid ℝ).thirdFlattening := by
    norm_num [thirdFlattening]
  exact ⟨((geographic_accuracy ⟨1, 0.1⟩ (by norm_num)).1 hone _ hxi).2,
    ((geographic_accuracy ⟨1, 0.6⟩ (by norm_num)).1 hsix _ hxi).2,
    (geographic_accuracy ⟨1, 0.9⟩ (by norm_num)).2 hnine⟩

end Ellipsoid

end EqualArea
