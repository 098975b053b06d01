import EqualArea.Proofs.Disc

/-!
# How maps of the plane change areas

The areal scale of a map of two variables, and that of the maps a projection is made of.

* `HasPartials` — the derivative of a number by two variables, as its two partial derivatives.
* `HasArealScale` — the derivative of a map to the plane, as the determinant of its Jacobian.
* `Frame.hasArealScale_image` — the map of the sphere to the disc has the areal scale of longitude
  and latitude on the sphere, the cosine of the latitude.
* `hasArealScale_polar` — polar coordinates about a pole.

**Design.**  Differentiability is the total one, so no statement depends on the order in which
the partial derivatives are taken.  The scale is the determinant with its sign; a mirror image
has a negative one.
-/

namespace EqualArea

/-! ## Partial derivatives -/

/-- A number that depends on two variables is differentiable, with the given partial
derivatives. -/
def HasPartials (f : ℝ × ℝ → ℝ) (first second : ℝ) (v : ℝ × ℝ) : Prop :=
  HasFDerivAt f
    (first • ContinuousLinearMap.fst ℝ ℝ ℝ + second • ContinuousLinearMap.snd ℝ ℝ ℝ) v

namespace HasPartials

variable {f g : ℝ × ℝ → ℝ} {a b c d : ℝ} {v : ℝ × ℝ}

lemma congr_partials (h : HasPartials f a b v) (ha : a = c) (hb : b = d) : HasPartials f c d v := by
  subst ha hb
  exact h

lemma const (k : ℝ) (v : ℝ × ℝ) : HasPartials (fun _ => k) 0 0 v := by
  simpa [HasPartials] using hasFDerivAt_const k v

/-- A function of the first variable. -/
lemma of_fst {h : ℝ → ℝ} (hh : HasDerivAt h a v.1) : HasPartials (fun w => h w.1) a 0 v := by
  refine (hh.hasFDerivAt.comp v hasFDerivAt_fst).congr_fderiv ?_
  ext <;> simp

/-- A function of the second variable. -/
lemma of_snd {h : ℝ → ℝ} (hh : HasDerivAt h b v.2) : HasPartials (fun w => h w.2) 0 b v := by
  refine (hh.hasFDerivAt.comp v hasFDerivAt_snd).congr_fderiv ?_
  ext <;> simp

lemma add (hf : HasPartials f a b v) (hg : HasPartials g c d v) :
    HasPartials (fun w => f w + g w) (a + c) (b + d) v := by
  refine (HasFDerivAt.add hf hg).congr_fderiv ?_
  ext <;> simp

lemma sub (hf : HasPartials f a b v) (hg : HasPartials g c d v) :
    HasPartials (fun w => f w - g w) (a - c) (b - d) v := by
  refine (HasFDerivAt.sub hf hg).congr_fderiv ?_
  ext <;> simp

lemma mul (hf : HasPartials f a b v) (hg : HasPartials g c d v) :
    HasPartials (fun w => f w * g w) (a * g v + f v * c) (b * g v + f v * d) v := by
  refine (HasFDerivAt.mul hf hg).congr_fderiv ?_
  ext <;> simp <;> ring

/-- A function of a number that depends on two variables. -/
lemma comp {h : ℝ → ℝ} (hh : HasDerivAt h c (f v)) (hf : HasPartials f a b v) :
    HasPartials (fun w => h (f w)) (c * a) (c * b) v := by
  refine (hh.hasFDerivAt.comp v hf).congr_fderiv ?_
  ext <;> simp [mul_comm]

end HasPartials

/-! ## Areal scale -/

/-- A map of two variables to the plane is differentiable, and its Jacobian has the given
determinant. -/
def HasArealScale (f : ℝ × ℝ → ℝ × ℝ) (scale : ℝ) (v : ℝ × ℝ) : Prop :=
  ∃ J : ℝ × ℝ →L[ℝ] ℝ × ℝ, HasFDerivAt f J v ∧
    (J (1, 0)).1 * (J (0, 1)).2 - (J (0, 1)).1 * (J (1, 0)).2 = scale

lemma HasPartials.hasArealScale {f g : ℝ × ℝ → ℝ} {a b c d : ℝ} {v : ℝ × ℝ}
    (hf : HasPartials f a b v) (hg : HasPartials g c d v) :
    HasArealScale (fun w => (f w, g w)) (a * d - b * c) v :=
  ⟨_, HasFDerivAt.prodMk hf hg, by simp⟩

namespace HasArealScale

variable {f g : ℝ × ℝ → ℝ × ℝ} {scale : ℝ} {v : ℝ × ℝ}

lemma congr_of_eventuallyEq (h : HasArealScale f scale v) (heq : g =ᶠ[nhds v] f) :
    HasArealScale g scale v := by
  obtain ⟨J, hJ, hdet⟩ := h
  exact ⟨J, hJ.congr_of_eventuallyEq heq, hdet⟩

/-- A change of the scale along each axis of the map. -/
lemma map {h k : ℝ → ℝ} {a b : ℝ} (hf : HasArealScale f scale v) (hh : HasDerivAt h a (f v).1)
    (hk : HasDerivAt k b (f v).2) :
    HasArealScale (fun w => (h (f w).1, k (f w).2)) (a * b * scale) v := by
  obtain ⟨J, hJ, hdet⟩ := hf
  refine ⟨_, (hh.hasFDerivAt.comp v hJ.fst).prodMk (hk.hasFDerivAt.comp v hJ.snd), ?_⟩
  simp
  linear_combination a * b * hdet

/-- A change of each of the two variables. -/
lemma comp {h k : ℝ → ℝ} {a b lambda phi : ℝ} (hf : HasArealScale f scale (h lambda, k phi))
    (hh : HasDerivAt h a lambda) (hk : HasDerivAt k b phi) :
    HasArealScale (fun w => f (h w.1, k w.2)) (a * b * scale) (lambda, phi) := by
  obtain ⟨J, hJ, hdet⟩ := hf
  have hfirst : HasFDerivAt (fun w : ℝ × ℝ => h w.1) _ (lambda, phi) :=
    HasPartials.of_fst (v := (lambda, phi)) hh
  have hsecond : HasFDerivAt (fun w : ℝ × ℝ => k w.2) _ (lambda, phi) :=
    HasPartials.of_snd (v := (lambda, phi)) hk
  refine ⟨_, HasFDerivAt.comp (lambda, phi) hJ (hfirst.prodMk hsecond), ?_⟩
  have ha : J (a, 0) = a • J (1, 0) := by simp [← map_smul]
  have hb : J (0, b) = b • J (0, 1) := by simp [← map_smul]
  simp [ha, hb]
  linear_combination a * b * hdet

end HasArealScale

/-! ## The map of the sphere to the disc -/

lemma Sight.hasDerivAt_scale {u : ℝ} (h : -1 < u) :
    HasDerivAt (fun u => Real.sqrt (2 / (1 + u))) (-Real.sqrt (2 / (1 + u)) / (2 * (1 + u))) u := by
  have hpos : 0 < 1 + u := by linarith
  have hquotient : HasDerivAt (fun u : ℝ => 2 / (1 + u)) ((0 * (1 + u) - 2 * 1) / (1 + u) ^ 2) u :=
    (hasDerivAt_const u (2 : ℝ)).div ((hasDerivAt_id u).const_add 1) hpos.ne'
  have hroot : 0 < Real.sqrt (2 / (1 + u)) := Real.sqrt_pos.mpr (by positivity)
  have hsq : Real.sqrt (2 / (1 + u)) ^ 2 * (1 + u) = 2 := by
    rw [Real.sq_sqrt (by positivity)]
    field_simp
  refine (hquotient.sqrt (by positivity)).congr_deriv ?_
  rw [div_div, div_eq_div_iff (by positivity) (by positivity)]
  linear_combination 2 * (1 + u) * hsq

/-- The map to the disc keeps the area of a parallelogram that is tangent to the sphere: if the
normal of the parallelogram is `c` times the sight, the image has the area `c`. -/
lemma Sight.image_jacobian (v : Sight) (h : -1 < v.up) {c east₁ east₂ north₁ north₂ up₁ up₂ : ℝ}
    (hup : east₁ * north₂ - east₂ * north₁ = c * v.up)
    (heast : north₁ * up₂ - north₂ * up₁ = c * v.east)
    (hnorth : up₁ * east₂ - up₂ * east₁ = c * v.north) :
    (-v.scale / (2 * (1 + v.up)) * up₁ * v.east + v.scale * east₁) *
        (-v.scale / (2 * (1 + v.up)) * up₂ * v.north + v.scale * north₂) -
      (-v.scale / (2 * (1 + v.up)) * up₂ * v.east + v.scale * east₂) *
        (-v.scale / (2 * (1 + v.up)) * up₁ * v.north + v.scale * north₁) = c := by
  have hpos : 0 < 1 + v.up := by linarith
  have hsq := v.scale_sq_mul h
  set m := -v.scale / (2 * (1 + v.up)) with hm
  have hslope : m * (1 + v.up) = -v.scale / 2 := by
    rw [hm]
    field_simp
  calc _ = v.scale ^ 2 * (c * v.up) - v.scale * m * c * (v.east ^ 2 + v.north ^ 2) := by
        linear_combination v.scale ^ 2 * hup - v.scale * m * v.east * heast -
          v.scale * m * v.north * hnorth
    _ = v.scale ^ 2 * (c * v.up) - v.scale * (m * (1 + v.up)) * c * (1 - v.up) := by
        linear_combination -(v.scale * m * c) * v.unit
    _ = c := by
        rw [hslope]
        linear_combination c / 2 * hsq

namespace Frame

variable (F : Frame) (lambda xi : ℝ)

lemma hasPartials_east : HasPartials (fun v => (F.sight v.1 v.2).east)
    (Real.cos xi * Real.cos lambda) (-Real.sin xi * Real.sin lambda) (lambda, xi) := by
  have hcos := HasPartials.of_snd (v := (lambda, xi)) (Real.hasDerivAt_cos xi)
  have hsin := HasPartials.of_fst (v := (lambda, xi)) (Real.hasDerivAt_sin lambda)
  exact (hcos.mul hsin).congr_partials (by ring) (by ring)

lemma hasPartials_north : HasPartials (fun v => (F.sight v.1 v.2).north)
    (F.sin * Real.cos xi * Real.sin lambda)
    (F.cos * Real.cos xi + F.sin * Real.sin xi * Real.cos lambda) (lambda, xi) := by
  have hsin := HasPartials.of_snd (v := (lambda, xi)) ((Real.hasDerivAt_sin xi).const_mul F.cos)
  have hcos := HasPartials.of_snd (v := (lambda, xi)) ((Real.hasDerivAt_cos xi).const_mul F.sin)
  have hlongitude := HasPartials.of_fst (v := (lambda, xi)) (Real.hasDerivAt_cos lambda)
  exact (hsin.sub (hcos.mul hlongitude)).congr_partials (by ring) (by ring)

lemma hasPartials_up : HasPartials (fun v => (F.sight v.1 v.2).up)
    (-(F.cos * Real.cos xi * Real.sin lambda))
    (F.sin * Real.cos xi - F.cos * Real.sin xi * Real.cos lambda) (lambda, xi) := by
  have hsin := HasPartials.of_snd (v := (lambda, xi)) ((Real.hasDerivAt_sin xi).const_mul F.sin)
  have hcos := HasPartials.of_snd (v := (lambda, xi)) ((Real.hasDerivAt_cos xi).const_mul F.cos)
  have hlongitude := HasPartials.of_fst (v := (lambda, xi)) (Real.hasDerivAt_cos lambda)
  exact (hsin.add (hcos.mul hlongitude)).congr_partials (by ring) (by ring)

lemma hasPartials_scale (h : -1 < (F.sight lambda xi).up) :
    HasPartials (fun v => (F.sight v.1 v.2).scale)
      (-(F.sight lambda xi).scale / (2 * (1 + (F.sight lambda xi).up)) *
        -(F.cos * Real.cos xi * Real.sin lambda))
      (-(F.sight lambda xi).scale / (2 * (1 + (F.sight lambda xi).up)) *
        (F.sin * Real.cos xi - F.cos * Real.sin xi * Real.cos lambda)) (lambda, xi) := by
  have hup : HasDerivAt (fun u => Real.sqrt (2 / (1 + u)))
      (-(F.sight lambda xi).scale / (2 * (1 + (F.sight lambda xi).up))) (F.sight lambda xi).up :=
    Sight.hasDerivAt_scale h
  exact HasPartials.comp (h := fun u => Real.sqrt (2 / (1 + u)))
    (f := fun v => (F.sight v.1 v.2).up) hup (F.hasPartials_up lambda xi)

/-- The partial derivatives of a sight are tangent to the sphere, and the parallelogram they span
has the area of longitude and latitude there: its normal is the sight, times the cosine of the
latitude. -/
theorem hasArealScale_image (h : -1 < (F.sight lambda xi).up) :
    HasArealScale (fun v => ((F.sight v.1 v.2).image.first, (F.sight v.1 v.2).image.second))
      (Real.cos xi) (lambda, xi) := by
  have hscale := F.hasPartials_scale lambda xi h
  obtain ⟨J, hJ, hdet⟩ := (hscale.mul (F.hasPartials_east lambda xi)).hasArealScale
    (hscale.mul (F.hasPartials_north lambda xi))
  have hlambda := Real.sin_sq_add_cos_sq lambda
  refine ⟨J, hJ, hdet.trans ((F.sight lambda xi).image_jacobian h ?_ ?_ ?_)⟩
  · simp only [sight]
    linear_combination Real.cos xi * F.sin * Real.sin xi * hlambda
  · simp only [sight]
    linear_combination Real.cos xi ^ 2 * Real.sin lambda * F.unit
  · simp only [sight]
    linear_combination Real.cos xi * F.cos * Real.sin xi * hlambda

end Frame

/-! ## Polar coordinates about a pole -/

/-- The areal scale of polar coordinates is half the change of the squared distance. -/
theorem hasArealScale_polar {r : ℝ → ℝ} {slope phi : ℝ} (hr : HasDerivAt r slope phi)
    (sigma lambda : ℝ) :
    HasArealScale (fun v => (r v.2 * Real.sin v.1, sigma * (r v.2 * Real.cos v.1)))
      (sigma * (r phi * slope)) (lambda, phi) := by
  have hradius := HasPartials.of_snd (v := (lambda, phi)) hr
  have hsin := HasPartials.of_fst (v := (lambda, phi)) (Real.hasDerivAt_sin lambda)
  have hcos := HasPartials.of_fst (v := (lambda, phi)) (Real.hasDerivAt_cos lambda)
  have hsigma := HasPartials.const sigma (lambda, phi)
  obtain ⟨J, hJ, hdet⟩ := (hradius.mul hsin).hasArealScale (hsigma.mul (hradius.mul hcos))
  refine ⟨J, hJ, hdet.trans ?_⟩
  linear_combination sigma * r phi * slope * Real.sin_sq_add_cos_sq lambda

end EqualArea
