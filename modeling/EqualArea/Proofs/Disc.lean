import EqualArea.Coordinate.Basic
import EqualArea.Proofs.Exact.Arith

/-!
# The sphere seen from a centre

The geometry that the equatorial and the oblique mappings share, on the unit sphere and over the
real numbers.

* `Sight` — a point of the sphere in the frame of the centre: how far it lies to the east, to the
  north, and up toward the centre.
* `Frame`, `Frame.sight`, `Frame.position` — the frame of a centre, and the change between sights
  and positions given as longitude and latitude.
* `Sight.image`, `Sight.ofImage` — the equal-area map of the sphere to the disc of radius two, and
  back.

The change of frame and the map each have an inverse: `Frame.position_sight`,
`Frame.sight_position`, `Sight.ofImage_image` and `Sight.image_ofImage`.

**Design.**  A sight carries the proof that it lies on the sphere, so no statement about the map
mentions an angle or the tests by which the mappings keep to their domain.  The two inverses of
the frame need no condition on its centre: the latitude is an arc sine and never past a pole, and
at a pole, where the direction of the longitude vanishes, every longitude gives the same sight.
-/

namespace EqualArea

/-- A point of the unit sphere in the frame of the centre of a map. -/
@[ext] structure Sight where
  /-- How far the point lies to the east of the centre. -/
  east : ℝ
  /-- How far the point lies to the north of the centre. -/
  north : ℝ
  /-- How far the point lies up, toward the centre. -/
  up : ℝ
  /-- The point lies on the sphere. -/
  unit : east ^ 2 + north ^ 2 + up ^ 2 = 1

/-- The sine and the cosine of the latitude of a centre. -/
structure Frame where
  /-- The sine. -/
  sin : ℝ
  /-- The cosine. -/
  cos : ℝ
  /-- The two belong to one angle. -/
  unit : sin ^ 2 + cos ^ 2 = 1

namespace Sight

lemma neg_one_le_up (v : Sight) : -1 ≤ v.up := by
  nlinarith [v.unit, sq_nonneg v.east, sq_nonneg v.north]

/-- A component along any direction of the meridian plane of the centre is at most one. -/
lemma abs_component_le_one (v : Sight) (F : Frame) : |F.sin * v.up + F.cos * v.north| ≤ 1 := by
  have h : (F.sin * v.up + F.cos * v.north) ^ 2 ≤ 1 := by
    nlinarith [v.unit, F.unit, sq_nonneg v.east, sq_nonneg (F.sin * v.north - F.cos * v.up)]
  exact abs_le_one_iff_mul_self_le_one.mpr (by nlinarith)

/-! ## The map to the disc -/

/-- The factor that takes the horizontal part of a sight to the map. -/
noncomputable def scale (v : Sight) : ℝ := Real.sqrt (2 / (1 + v.up))

/-- The image of a sight on the map. -/
noncomputable def image (v : Sight) : Coordinate ℝ := ⟨v.scale * v.east, v.scale * v.north⟩

/-- The square of the factor makes the height above the antipode a constant. -/
lemma scale_sq_mul (v : Sight) (h : -1 < v.up) : v.scale ^ 2 * (1 + v.up) = 2 := by
  have hpos : 0 < 1 + v.up := by linarith
  rw [scale, Real.sq_sqrt (by positivity)]
  field_simp

lemma scale_pos (v : Sight) (h : -1 < v.up) : 0 < v.scale := by
  have hpos : 0 < 1 + v.up := by linarith
  exact Real.sqrt_pos.mpr (by positivity)

/-- The distance from the centre on the map is the chord on the sphere. -/
lemma image_sq (v : Sight) (h : -1 < v.up) :
    v.image.first ^ 2 + v.image.second ^ 2 = 2 * (1 - v.up) := by
  have hscale := v.scale_sq_mul h
  calc v.image.first ^ 2 + v.image.second ^ 2
      = v.scale ^ 2 * (1 + v.up) * (1 - v.up) := by
        simp only [image]
        linear_combination v.scale ^ 2 * v.unit
    _ = 2 * (1 - v.up) := by rw [hscale]

/-- The image of the sphere without the antipode is the open disc of radius two. -/
lemma hypot_image_lt (v : Sight) (h : -1 < v.up) :
    Exact.hypot v.image.first v.image.second < 2 := by
  refine lt_of_pow_lt_pow_left₀ 2 zero_le_two ?_
  rw [Exact.hypot_sq, v.image_sq h]
  linarith

/-- The cosine of half the arc that belongs to a chord. -/
noncomputable def halfCos (x y : ℝ) : ℝ := Real.sqrt (1 - (Exact.hypot x y / 2) ^ 2)

lemma halfCos_sq {x y : ℝ} (h : Exact.hypot x y ≤ 2) :
    halfCos x y ^ 2 = 1 - (x ^ 2 + y ^ 2) / 4 := by
  have hnonneg := Exact.hypot_nonneg x y
  rw [halfCos, Real.sq_sqrt (by nlinarith), div_pow, Exact.hypot_sq]
  norm_num

/-- The sight of a point of the disc. -/
noncomputable def ofImage (x y : ℝ) (h : Exact.hypot x y ≤ 2) : Sight where
  east := x * halfCos x y
  north := y * halfCos x y
  up := 1 - (x ^ 2 + y ^ 2) / 2
  unit := by
    have hhalf := halfCos_sq h
    linear_combination (x ^ 2 + y ^ 2) * hhalf

lemma up_ofImage_gt {x y : ℝ} (h : Exact.hypot x y < 2) : -1 < (ofImage x y h.le).up := by
  have hsq := Exact.hypot_sq x y
  have hnonneg := Exact.hypot_nonneg x y
  change -1 < 1 - (x ^ 2 + y ^ 2) / 2
  nlinarith

/-- Only the rim of the disc is as far down as the antipode. -/
lemma hypot_lt_of_up {x y : ℝ} (h : Exact.hypot x y ≤ 2) (hup : -1 < (ofImage x y h).up) :
    Exact.hypot x y < 2 := by
  refine lt_of_le_of_ne h fun heq => ?_
  have hsq := Exact.hypot_sq x y
  rw [heq] at hsq
  change -1 < 1 - (x ^ 2 + y ^ 2) / 2 at hup
  linarith

lemma scale_ofImage {x y : ℝ} (h : Exact.hypot x y < 2) :
    (ofImage x y h.le).scale * halfCos x y = 1 := by
  have hup := up_ofImage_gt h
  have hscale := (ofImage x y h.le).scale_sq_mul hup
  have hpos := (ofImage x y h.le).scale_pos hup
  have hhalf := halfCos_sq h.le
  have hnonneg : 0 ≤ halfCos x y := Real.sqrt_nonneg _
  have hsq : ((ofImage x y h.le).scale * halfCos x y) ^ 2 = 1 := by
    change (ofImage x y h.le).scale ^ 2 * (1 + (1 - (x ^ 2 + y ^ 2) / 2)) = 2 at hscale
    rw [mul_pow, hhalf]
    linear_combination hscale / 2
  nlinarith [mul_nonneg hpos.le hnonneg]

/-- Mapping the sight of a point of the disc gives the point back. -/
theorem image_ofImage {x y : ℝ} (h : Exact.hypot x y < 2) : (ofImage x y h.le).image = ⟨x, y⟩ := by
  have hone := scale_ofImage h
  ext
  · change (ofImage x y h.le).scale * (x * halfCos x y) = x
    linear_combination x * hone
  · change (ofImage x y h.le).scale * (y * halfCos x y) = y
    linear_combination y * hone

lemma halfCos_image (v : Sight) (h : -1 < v.up) :
    v.scale * halfCos v.image.first v.image.second = 1 := by
  have hhalf := halfCos_sq (v.hypot_image_lt h).le
  have hscale := v.scale_sq_mul h
  have hpos := v.scale_pos h
  have hnonneg : 0 ≤ halfCos v.image.first v.image.second := Real.sqrt_nonneg _
  rw [v.image_sq h] at hhalf
  have hsq : (v.scale * halfCos v.image.first v.image.second) ^ 2 = 1 := by
    rw [mul_pow, hhalf]
    linear_combination hscale / 2
  nlinarith [mul_nonneg hpos.le hnonneg]

/-- The image of a sight determines it. -/
theorem ofImage_image (v : Sight) (h : -1 < v.up) :
    ofImage v.image.first v.image.second (v.hypot_image_lt h).le = v := by
  have hone := v.halfCos_image h
  ext
  · change v.scale * v.east * halfCos v.image.first v.image.second = v.east
    linear_combination v.east * hone
  · change v.scale * v.north * halfCos v.image.first v.image.second = v.north
    linear_combination v.north * hone
  · change 1 - (v.image.first ^ 2 + v.image.second ^ 2) / 2 = v.up
    rw [v.image_sq h]
    ring

/-! ## The arc of a chord -/

/-- The arc on the sphere from the centre to a point of the disc. -/
noncomputable def arc (x y : ℝ) : ℝ := 2 * Real.arcsin (Exact.hypot x y / 2)

lemma sin_arc {x y : ℝ} (h : Exact.hypot x y ≤ 2) :
    Real.sin (arc x y) = Exact.hypot x y * halfCos x y := by
  have hnonneg := Exact.hypot_nonneg x y
  rw [arc, Real.sin_two_mul, Real.sin_arcsin (by linarith) (by linarith), Real.cos_arcsin, halfCos]
  ring

lemma cos_arc {x y : ℝ} (h : Exact.hypot x y ≤ 2) :
    Real.cos (arc x y) = 1 - (x ^ 2 + y ^ 2) / 2 := by
  have hnonneg := Exact.hypot_nonneg x y
  rw [arc, Real.cos_two_mul, Real.cos_sq', Real.sin_arcsin (by linarith) (by linarith), div_pow,
    Exact.hypot_sq]
  ring

/-- The chord of an arc. -/
noncomputable def chord (arc : ℝ) : ℝ := 2 * Real.sin (arc / 2)

/-- The chord of the arc to a point is its distance from the centre. -/
lemma chord_arc {x y : ℝ} (h : Exact.hypot x y ≤ 2) : chord (arc x y) = Exact.hypot x y := by
  have hnonneg := Exact.hypot_nonneg x y
  rw [chord, arc, mul_div_cancel_left₀ _ two_ne_zero,
    Real.sin_arcsin (by linarith) (by linarith)]
  ring

lemma chord_pos {delta : ℝ} (h : delta ∈ Set.Ioo 0 Real.pi) : 0 < chord delta := by
  have hsin : 0 < Real.sin (delta / 2) :=
    Real.sin_pos_of_pos_of_lt_pi (by linarith [h.1]) (by linarith [h.1, h.2])
  rw [chord]
  linarith

lemma chord_le_two (delta : ℝ) : chord delta ≤ 2 := by
  have hsin := Real.sin_le_one (delta / 2)
  rw [chord]
  linarith

lemma chord_nonneg {delta : ℝ} (h : delta ∈ Set.Icc 0 Real.pi) : 0 ≤ chord delta := by
  have hsin : 0 ≤ Real.sin (delta / 2) :=
    Real.sin_nonneg_of_nonneg_of_le_pi (by linarith [h.1]) (by linarith [h.1, h.2])
  rw [chord]
  linarith

lemma chord_sq (delta : ℝ) : chord delta ^ 2 = 2 * (1 - Real.cos delta) := by
  have hdouble : Real.cos delta = 1 - 2 * Real.sin (delta / 2) ^ 2 := by
    rw [← Real.cos_two_mul_eq_one_sub, mul_div_cancel₀ _ two_ne_zero]
  rw [chord, hdouble]
  ring

/-- No chord is longer than that of half a turn. -/
lemma arc_mem (x y : ℝ) : arc x y ∈ Set.Icc 0 Real.pi := by
  have hnonneg : 0 ≤ Real.arcsin (Exact.hypot x y / 2) :=
    Real.arcsin_nonneg.mpr (div_nonneg (Exact.hypot_nonneg x y) zero_le_two)
  have hle := Real.arcsin_le_pi_div_two (Exact.hypot x y / 2)
  rw [arc]
  constructor <;> linarith

/-- The arc to the end of a chord in any direction. -/
lemma arc_chord {delta : ℝ} (h : delta ∈ Set.Ioo 0 Real.pi) {x y : ℝ}
    (hxy : Exact.hypot x y = chord delta) : arc x y = delta := by
  have hhalf : Real.arcsin (Real.sin (delta / 2)) = delta / 2 :=
    Real.arcsin_sin (by linarith [h.1, h.2]) (by linarith [h.2])
  rw [arc, hxy, chord, mul_div_cancel_left₀ _ two_ne_zero, hhalf]
  ring

end Sight

namespace Frame

/-! ## Frames -/

/-- The frame of a centre on the equator. -/
def equator : Frame := ⟨0, 1, by norm_num⟩

/-- The frame of a centre at a latitude. -/
noncomputable def ofLatitude (latitude : ℝ) : Frame :=
  ⟨Real.sin latitude, Real.cos latitude, Real.sin_sq_add_cos_sq latitude⟩

/-- The sight of the point at a longitude and a latitude. -/
noncomputable def sight (F : Frame) (lambda phi : ℝ) : Sight where
  east := Real.cos phi * Real.sin lambda
  north := F.cos * Real.sin phi - F.sin * Real.cos phi * Real.cos lambda
  up := F.sin * Real.sin phi + F.cos * Real.cos phi * Real.cos lambda
  unit := by
    have hphi := Real.sin_sq_add_cos_sq phi
    have hlambda := Real.sin_sq_add_cos_sq lambda
    linear_combination
      (Real.sin phi ^ 2 + Real.cos phi ^ 2 * Real.cos lambda ^ 2) * F.unit
        + Real.cos phi ^ 2 * hlambda + hphi

/-- The sine of the latitude of a sight. -/
def sinLatitude (F : Frame) (v : Sight) : ℝ := F.sin * v.up + F.cos * v.north

/-- How far a sight lies from the axis toward the meridian of the centre. -/
def meridional (F : Frame) (v : Sight) : ℝ := F.cos * v.up - F.sin * v.north

/-- The longitude and the latitude of a sight. -/
noncomputable def position (F : Frame) (v : Sight) : Coordinate ℝ :=
  ⟨Exact.atan2 v.east (F.meridional v), Real.arcsin (F.sinLatitude v)⟩

@[simp] lemma sinLatitude_sight (F : Frame) (lambda phi : ℝ) :
    F.sinLatitude (F.sight lambda phi) = Real.sin phi := by
  simp only [sinLatitude, sight]
  linear_combination Real.sin phi * F.unit

@[simp] lemma meridional_sight (F : Frame) (lambda phi : ℝ) :
    F.meridional (F.sight lambda phi) = Real.cos phi * Real.cos lambda := by
  simp only [meridional, sight]
  linear_combination Real.cos phi * Real.cos lambda * F.unit

/-- Away from the poles a position is told from its sight. -/
theorem position_sight (F : Frame) {lambda phi : ℝ} (hlambda : lambda ∈ Set.Ioc (-Real.pi) Real.pi)
    (hphi : phi ∈ Set.Ioo (-(Real.pi / 2)) (Real.pi / 2)) :
    F.position (F.sight lambda phi) = ⟨lambda, phi⟩ := by
  have hcos : 0 < Real.cos phi := Real.cos_pos_of_mem_Ioo hphi
  have hlongitude :
      Exact.atan2 (Real.cos phi * Real.sin lambda) (Real.cos phi * Real.cos lambda) = lambda :=
    Exact.atan2_mul_sin_mul_cos hcos hlambda
  have hlatitude : Real.arcsin (Real.sin phi) = phi := Real.arcsin_sin hphi.1.le hphi.2.le
  rw [position, meridional_sight, sinLatitude_sight, hlatitude]
  exact congrArg (fun a => (⟨a, phi⟩ : Coordinate ℝ)) hlongitude

/-- The three components of a sight along the axis, the meridian of the centre and the east. -/
lemma sinLatitude_sq_add (F : Frame) (v : Sight) :
    F.meridional v ^ 2 + v.east ^ 2 = 1 - F.sinLatitude v ^ 2 := by
  simp only [sinLatitude, meridional]
  linear_combination v.unit + (v.up ^ 2 + v.north ^ 2) * F.unit

lemma sinLatitude_mem (F : Frame) (v : Sight) : F.sinLatitude v ∈ Set.Icc (-1 : ℝ) 1 :=
  abs_le.mp (v.abs_component_le_one F)

/-- The cosine of the latitude of a sight is its distance from the axis. -/
lemma cos_arcsin_sinLatitude (F : Frame) (v : Sight) :
    Real.cos (Real.arcsin (F.sinLatitude v)) = Exact.hypot (F.meridional v) v.east := by
  rw [Real.cos_arcsin, Exact.hypot, sinLatitude_sq_add]

/-- Every position of a sight has that sight. -/
theorem sight_position (F : Frame) (v : Sight) :
    F.sight (F.position v).first (F.position v).second = v := by
  have hmem := F.sinLatitude_mem v
  have hsin : Real.sin (F.position v).second = F.sinLatitude v :=
    Real.sin_arcsin hmem.1 hmem.2
  have hcos : Real.cos (F.position v).second = Exact.hypot (F.meridional v) v.east :=
    F.cos_arcsin_sinLatitude v
  have heast : Real.cos (F.position v).second * Real.sin (F.position v).first = v.east := by
    rw [hcos]
    exact Exact.mul_sin_atan2 v.east (F.meridional v)
  have hmeridional :
      Real.cos (F.position v).second * Real.cos (F.position v).first = F.meridional v := by
    rw [hcos]
    exact Exact.mul_cos_atan2 v.east (F.meridional v)
  ext
  · exact heast
  · change F.cos * Real.sin (F.position v).second -
        F.sin * Real.cos (F.position v).second * Real.cos (F.position v).first = v.north
    rw [mul_assoc, hmeridional, hsin, sinLatitude, meridional]
    linear_combination v.north * F.unit
  · change F.sin * Real.sin (F.position v).second +
        F.cos * Real.cos (F.position v).second * Real.cos (F.position v).first = v.up
    rw [mul_assoc, hmeridional, hsin, sinLatitude, meridional]
    linear_combination v.up * F.unit

/-- Every centre on the zero meridian sees the point of the equator a quarter turn to the east on
its horizon, due east. -/
lemma sight_quarter_turn (F : Frame) :
    (F.sight (Real.pi / 2) 0).up = 0 ∧ (F.sight (Real.pi / 2) 0).image = ⟨Real.sqrt 2, 0⟩ := by
  have hup : (F.sight (Real.pi / 2) 0).up = 0 := by simp [sight]
  refine ⟨hup, ?_⟩
  simp only [Sight.image, Sight.scale, hup]
  simp [sight]

end Frame

end EqualArea
