import EqualArea.Binary64.Arith
import EqualArea.Proofs.Ellipsoid.Constants

/-!
# Oblique centres

Where the centre of an oblique projection lies, and which sign its constants have.

* `Aspect.ofLatitude_eq_oblique`, `Aspect.polar_of_ofLatitude` — the latitudes that get the oblique
  aspect, and the aspect of those at a pole or past it.
* `Projection.Upright` — the axis of an oblique projection points north, and its scale factors are
  positive.
* `Projection.oblique_centre` — oblique projections are upright between the equator and the poles,
  and at one latitude past each pole they are not.
* `Aspect.ofLatitude_past_pole` — a machine number past the pole that gets the oblique aspect.

**Design.**  A latitude past a pole is refused when it is past it by more than the tolerance, and
taken for the pole when it is off it by less.  The latitude that is past it by exactly the tolerance
is neither, so it is kept apart in every statement.  What goes wrong there depends on how the
authalic latitude is computed: the series follows the latitude over the pole and the closed form
does not.
-/

namespace EqualArea

/-! ## The latitudes of oblique centres -/

namespace Aspect

variable {latitude : ℝ}

/-- A latitude past a pole by exactly the tolerance is neither refused nor taken for the pole. -/
lemma ofLatitude_of_gap (h : |latitude| = Real.pi / 2 + tolerance) :
    ofLatitude latitude = .ok .oblique := by
  have htolerance := tolerance_pos
  have hpi := Real.pi_pos
  have hgood : ¬Real.pi / 2 + tolerance < |latitude| := h.not_gt
  have hpole : ¬|(|latitude| - Real.pi / 2)| < tolerance := by
    rw [h, add_sub_cancel_left, abs_of_pos htolerance]
    exact lt_irrefl _
  have hequator : ¬|latitude| < tolerance := by linarith
  rw [ofLatitude_eq, if_neg hgood, if_neg hpole, if_neg hequator]

/-- The latitudes of the oblique aspect: those that keep their distance from the equator and from
the poles, and one past each pole. -/
theorem ofLatitude_eq_oblique :
    ofLatitude latitude = .ok .oblique ↔
      |latitude| ∈ Set.Icc tolerance (Real.pi / 2 - tolerance) ∨
        |latitude| = Real.pi / 2 + tolerance := by
  constructor
  · intro h
    obtain ⟨hlow, hpole, hhigh⟩ := oblique_bounds h
    rcases le_abs.mp hpole with hpast | hbefore
    · exact .inr (le_antisymm hhigh (by linarith))
    · exact .inl ⟨hlow, by linarith⟩
  · rintro (⟨hlow, hhigh⟩ | hgap)
    · exact ofLatitude_oblique hlow hhigh
    · exact ofLatitude_of_gap hgap

/-- What is accepted at a pole or past it gets a polar aspect, unless it is in the gap. -/
theorem polar_of_ofLatitude {aspect : Aspect} (h : ofLatitude latitude = .ok aspect)
    (hpast : Real.pi / 2 ≤ |latitude|) :
    aspect = .northPolar ∨ aspect = .southPolar ∨ |latitude| = Real.pi / 2 + tolerance := by
  have hpi := Real.pi_gt_three
  have hone := tolerance_lt_one
  cases aspect with
  | northPolar => exact .inl rfl
  | southPolar => exact .inr (.inl rfl)
  | equatorial =>
    rw [ofLatitude_eq] at h
    split_ifs at h with hfar hpole hsouth hequator
    · cases h
    · cases h
    · linarith
    · cases h
  | oblique =>
    rcases ofLatitude_eq_oblique.mp h with ⟨-, hhigh⟩ | hgap
    · linarith [tolerance_pos]
    · exact .inr (.inr hgap)

/-- The machine number closest to the end of the tolerance past the pole falls into the gap as
well. -/
theorem ofLatitude_past_pole :
    let latitude : Float := 1.5707963268948966
    Arith.quarterTurn < latitude ∧ (ofLatitude latitude).toOption = some .oblique ∧
      (ofLatitude (-latitude)).toOption = some .oblique := by
  decide +kernel

lemma cos_pos_of_between (h : |latitude| ∈ Set.Icc tolerance (Real.pi / 2 - tolerance)) :
    0 < Real.cos latitude := by
  have htolerance := tolerance_pos
  exact Real.cos_pos_of_mem_Ioo (abs_lt.mp (by linarith [h.2]))

lemma cos_neg_of_gap (h : |latitude| = Real.pi / 2 + tolerance) : Real.cos latitude < 0 := by
  have htolerance := tolerance_pos
  have hone := tolerance_lt_one
  have hpi := Real.pi_gt_three
  rw [← Real.cos_abs, h]
  exact Real.cos_neg_of_pi_div_two_lt_of_lt (by linarith) (by linarith)

end Aspect

/-! ## The constants of oblique projections -/

namespace Projection

variable {p : Projection ℝ} {e : Ellipsoid ℝ} {latitude : ℝ}

/-- The axis of a projection points north, and its scale factors are positive. -/
structure Upright (p : Projection ℝ) : Prop where
  cosCentre_pos : 0 < p.cosCentre
  stretch_pos {s : Spheroid ℝ} (hs : p.spheroid? = some s) : 0 < s.stretch
  eastFactor_pos {s : Spheroid ℝ} (hs : p.spheroid? = some s) : 0 < s.eastFactor
  northFactor_pos {s : Spheroid ℝ} (hs : p.spheroid? = some s) : 0 < s.northFactor

/-- The stretch of an oblique projection has the sign of the quotient of the cosines of the two
latitudes of the centre. -/
lemma stretch_mul_cosCentre (he : e.Flattened) (hp : centredAt latitude e = .ok p)
    (hoblique : p.aspect = .oblique) {s : Spheroid ℝ} (hs : p.spheroid? = some s) :
    ∃ r, 0 < r ∧ s.stretch * (r * p.cosCentre) = Real.cos latitude := by
  have hcosCentre := cosCentre_ne_zero ⟨he.pos.le, he.lt_one⟩ hp hoblique
  obtain ⟨hradius, -⟩ := Spheroid.radiusOfArea_spec he (Spheroid.polar_of e)
  have hcurvature : 0 < 1 - e.eccentricitySq * Real.sin latitude * Real.sin latitude :=
    Authalic.one_sub_mul_pos he.pos.le he.lt_one (Real.sin_mem_Icc latitude)
  have hfactor := mul_pos (Real.sqrt_pos.mpr hcurvature) hradius
  obtain ⟨aspect, -, rfl⟩ := centredAt_eq_ok.mp hp
  rw [if_neg he.pos.ne'] at hoblique hs hcosCentre ⊢
  cases aspect <;> simp only [ofEllipsoid, reduceCtorEq] at hoblique
  obtain rfl := Option.some.inj hs
  exact ⟨_, hfactor, div_mul_cancel₀ _ (mul_ne_zero hfactor.ne' hcosCentre)⟩

/-- The scale factors of an oblique projection have the sign of its stretch. -/
lemma factors_pos (he : e.eccentricitySq ∈ Set.Ico (0 : ℝ) 1) (hp : centredAt latitude e = .ok p)
    (hoblique : p.aspect = .oblique) {s : Spheroid ℝ} (hs : p.spheroid? = some s)
    (hstretch : 0 < s.stretch) : 0 < s.eastFactor ∧ 0 < s.northFactor := by
  obtain ⟨-, -, hfitted⟩ := spheroid_of_centredAt he hp hs
  have hradius := (hfitted (.inr hoblique)).radius_pos
  rw [(hfitted (.inr hoblique)).eastFactor_eq, (hfitted (.inr hoblique)).northFactor_eq]
  exact ⟨mul_pos hradius hstretch, div_pos hradius hstretch⟩

/-- Between the equator and a pole both cosines are positive. -/
theorem upright_of_between (he : e.eccentricitySq ∈ Set.Ico (0 : ℝ) 1)
    (hp : centredAt latitude e = .ok p) (hoblique : p.aspect = .oblique)
    (h : |latitude| ∈ Set.Icc tolerance (Real.pi / 2 - tolerance)) : p.Upright := by
  have hcos := Aspect.cos_pos_of_between h
  have hstretch {s : Spheroid ℝ} (hs : p.spheroid? = some s) :
      0 < p.cosCentre ∧ 0 < s.stretch := by
    obtain ⟨hflattened, -, -⟩ := spheroid_of_centredAt he hp hs
    obtain ⟨r, hr, hquotient⟩ := stretch_mul_cosCentre hflattened hp hoblique hs
    have hpos : 0 < p.cosCentre :=
      cosCentre_of_ellipsoid hflattened hp hoblique ▸ hflattened.cos_authalic_pos hcos
    exact ⟨hpos, pos_of_mul_pos_left (hquotient ▸ hcos) (mul_pos hr hpos).le⟩
  refine ⟨?_, fun hs => (hstretch hs).2, fun hs => (factors_pos he hp hoblique hs (hstretch hs).2).1,
    fun hs => (factors_pos he hp hoblique hs (hstretch hs).2).2⟩
  by_cases hsphere : e.eccentricitySq = 0
  · rwa [cosCentre_of_sphere hsphere hp hoblique]
  · obtain ⟨s, hs, -, -⟩ := exists_spheroid ⟨lt_of_le_of_ne he.1 (Ne.symm hsphere), he.2⟩ hp
    exact (hstretch hs).1

/-- Past a pole the series gives an authalic latitude past the pole, and the closed form one that is
not, so either the cosine that is kept is negative or the stretch is. -/
theorem signs_of_gap (he : e.Flattened) (hp : centredAt latitude e = .ok p)
    (h : |latitude| = Real.pi / 2 + tolerance) {s : Spheroid ℝ} (hs : p.spheroid? = some s) :
    if e.usesSeries then p.cosCentre < 0 ∧ 0 < s.stretch else 0 < p.cosCentre ∧ s.stretch < 0 := by
  have hcos := Aspect.cos_neg_of_gap h
  have hoblique := aspect_of_centredAt (Aspect.ofLatitude_of_gap h) hp
  have hcosCentre := cosCentre_of_ellipsoid he hp hoblique
  obtain ⟨r, hr, hquotient⟩ := stretch_mul_cosCentre he hp hoblique hs
  -- Past the pole the stretch and the cosine of the centre have opposite signs.  The series follows
  -- the latitude across the pole, the closed form stays on this side of it.
  split_ifs with hseries
  · have hle := Ellipsoid.sq_le_cos_mul_cos_authalic hseries latitude
    rw [← hcosCentre] at hle
    have hneg : p.cosCentre < 0 := by nlinarith
    exact ⟨hneg, by nlinarith [mul_neg_of_pos_of_neg hr hneg]⟩
  · have hpos : 0 < p.cosCentre := hcosCentre ▸ Real.cos_pos_of_mem_Ioo
      (he.authalic_mem_Ioo_of_closed (Bool.eq_false_iff.mpr hseries) hcos.ne)
    exact ⟨hpos, by nlinarith [mul_pos hr hpos]⟩

/-- **Where an oblique centre lies.**  It keeps its distance from the equator and from the poles,
and then the projection is upright; or it is past a pole by exactly the tolerance, and then the
projection is not: on a sphere and with the series its axis points south, and with the closed form
its map is turned around.  Every other centre at a pole or past it gets a polar aspect. -/
theorem oblique_centre (he : e.eccentricitySq ∈ Set.Ico (0 : ℝ) 1)
    (hp : centredAt latitude e = .ok p) :
    (p.aspect = .oblique ↔ |latitude| ∈ Set.Icc tolerance (Real.pi / 2 - tolerance) ∨
        |latitude| = Real.pi / 2 + tolerance) ∧
      (Real.pi / 2 ≤ |latitude| → p.aspect = .northPolar ∨ p.aspect = .southPolar ∨
        |latitude| = Real.pi / 2 + tolerance) ∧
      (|latitude| ∈ Set.Icc tolerance (Real.pi / 2 - tolerance) → p.Upright) ∧
      (|latitude| = Real.pi / 2 + tolerance →
        (e.eccentricitySq = 0 → p.cosCentre < 0) ∧
          ∀ s, p.spheroid? = some s → if e.usesSeries then p.cosCentre < 0 ∧ 0 < s.stretch
            else 0 < p.cosCentre ∧ s.stretch < 0) := by
  obtain ⟨aspect, haspect, -⟩ := centredAt_eq_ok.mp hp
  have hsame := aspect_of_centredAt haspect hp
  refine ⟨?_, fun hpast => ?_, fun h => ?_, fun h => ⟨fun hsphere => ?_, fun s hs => ?_⟩⟩
  · rw [← Aspect.ofLatitude_eq_oblique, haspect, hsame, Except.ok.injEq]
  · rw [hsame]
    exact Aspect.polar_of_ofLatitude haspect hpast
  · exact upright_of_between he hp
      (aspect_of_centredAt (Aspect.ofLatitude_eq_oblique.mpr (.inl h)) hp) h
  · rw [cosCentre_of_sphere hsphere hp (aspect_of_centredAt (Aspect.ofLatitude_of_gap h) hp)]
    exact Aspect.cos_neg_of_gap h
  · exact signs_of_gap (spheroid_of_centredAt he hp hs).1 hp h hs

/-- One radian from the equator on an ellipsoid of half the height, and past the north pole by the
tolerance on a sphere. -/
theorem oblique_centre_of_one_and_past_pole :
    (∃ p : Projection ℝ, centredAt 1 ⟨1, 1 / 2⟩ = .ok p ∧ p.aspect = .oblique ∧ p.Upright) ∧
      ∃ p : Projection ℝ, centredAt (Real.pi / 2 + tolerance) ⟨1, 0⟩ = .ok p ∧
        p.aspect = .oblique ∧ p.cosCentre < 0 := by
  have htolerance := tolerance_pos
  have hone := tolerance_lt_one
  have hpi := Real.pi_gt_three
  constructor
  · have he := Ellipsoid.flattened_half
    obtain ⟨-, -, hupright, -⟩ := oblique_centre ⟨he.pos.le, he.lt_one⟩ (centredAt_one he)
    have hsmall : (tolerance : ℝ) < 1 / 10 := by rw [tolerance_eq]; norm_num
    refine ⟨_, centredAt_one he, rfl, hupright ?_⟩
    rw [abs_one]
    constructor <;> linarith
  · have habs : |Real.pi / 2 + tolerance| = Real.pi / 2 + tolerance := abs_of_pos (by linarith)
    have hsphere : (⟨1, 0⟩ : Ellipsoid ℝ).eccentricitySq = 0 := by simp [Ellipsoid.eccentricitySq]
    have hp : centredAt (Real.pi / 2 + tolerance) ⟨1, 0⟩ = .ok _ :=
      centredAt_eq_ok.mpr ⟨_, Aspect.ofLatitude_of_gap habs, rfl⟩
    obtain ⟨hiff, -, -, hgap⟩ := oblique_centre (by rw [hsphere]; norm_num) hp
    exact ⟨_, hp, hiff.mpr (.inr habs), (hgap habs).1 hsphere⟩

end Projection

end EqualArea
