import EqualArea.Binary64.Arith
import EqualArea.Proofs.Operator.Created

/-!
# The shapes operators are created on

Which ellipsoids an operator is created on, and which of its mappings they get.

* `Ellipsoid.Oblate` — both axes are positive, and the one between the poles is not the longer.
* `Ellipsoid.eccentricitySq_mem`, `Ellipsoid.eccentricitySq_eq_zero` — what the squared eccentricity
  says about the flattening.
* `Operator.RunsSphere`, `Operator.runsSphere_ofProjection` — the operators that run the mappings of
  the sphere.
* `Operator.create_shape` — the ellipsoids of created operators.
* `Operator.create_on_no_ellipsoid` — machine numbers that are accepted and describe none of them.

**Design.**  The squared eccentricity `f (2 - f)` is the same for a flattening `f` and for `2 - f`,
and it is all that is asked about the shape.  So beside the oblate ellipsoids there are the
accepted ones with a flattening above one, whose semiminor axis is negative, and the two are kept
apart in every statement.
-/

namespace EqualArea

namespace Ellipsoid

variable {e : Ellipsoid ℝ}

/-- Both axes are positive, and the one between the poles is not the longer. -/
structure Oblate (e : Ellipsoid ℝ) : Prop where
  semimajor_pos : 0 < e.semimajor
  flattening_mem : e.flattening ∈ Set.Ico 0 1
  semiminor_pos : 0 < e.semiminor
  thirdFlattening_mem : e.thirdFlattening ∈ Set.Ico 0 1

/-- The flattening says it all. -/
lemma Oblate.of_flattening (hsemimajor : 0 < e.semimajor) (h : e.flattening ∈ Set.Ico 0 1) :
    e.Oblate := by
  obtain ⟨hnonneg, hlt⟩ := h
  refine ⟨hsemimajor, ⟨hnonneg, hlt⟩, mul_pos hsemimajor (by linarith), ?_, ?_⟩
  · exact div_nonneg hnonneg (by linarith)
  · change e.flattening / (2 - e.flattening) < 1
    rw [div_lt_one (by linarith)]
    linarith

/-- A squared eccentricity below one leaves two intervals for the flattening. -/
lemma eccentricitySq_mem :
    e.eccentricitySq ∈ Set.Ico (0 : ℝ) 1 ↔
      e.flattening ∈ Set.Ico 0 1 ∨ e.flattening ∈ Set.Ioc 1 2 := by
  change 0 ≤ e.flattening * (2 - e.flattening) ∧ e.flattening * (2 - e.flattening) < 1 ↔
    (0 ≤ e.flattening ∧ e.flattening < 1) ∨ (1 < e.flattening ∧ e.flattening ≤ 2)
  constructor
  · rintro ⟨hnonneg, hlt⟩
    have hrange : 0 ≤ e.flattening ∧ e.flattening ≤ 2 := by constructor <;> nlinarith
    have hne : e.flattening ≠ 1 := by
      intro h
      rw [h] at hlt
      linarith
    rcases lt_or_gt_of_ne hne with h | h
    · exact .inl ⟨hrange.1, h⟩
    · exact .inr ⟨h, hrange.2⟩
  · rintro (⟨hlow, hhigh⟩ | ⟨hlow, hhigh⟩) <;> constructor <;> nlinarith

lemma eccentricitySq_eq_zero : e.eccentricitySq = 0 ↔ e.flattening = 0 ∨ e.flattening = 2 := by
  change e.flattening * (2 - e.flattening) = 0 ↔ _
  rw [mul_eq_zero, sub_eq_zero, eq_comm (a := (2 : ℝ))]

lemma isSphere_iff : e.isSphere = true ↔ e.flattening = 0 := Exact.beq_iff

end Ellipsoid

namespace Operator

/-- Both directions run the mappings of the sphere. -/
def RunsSphere {α : Type} (op : Operator α) : Prop :=
  op.descriptor.forward = .sphere ∧ op.descriptor.inverse = .sphere

/-- A new operator runs the mappings of the sphere unless its projection has constants for an
ellipsoid. -/
lemma runsSphere_ofProjection {α : Type} [Arith α] (P : Parameters α) (p : Projection α) :
    (ofProjection P p).RunsSphere ↔ p.spheroid? = none := by
  unfold RunsSphere ofProjection
  cases p.spheroid? <;> simp

variable {P : Parameters ℝ} {op : Operator ℝ}

/-- **Operators are created on oblate ellipsoids, and on those turned inside out.**  On an oblate
one the mappings of the sphere are run exactly when it is a sphere.  The others have a flattening
above one and a negative semiminor axis; they are no spheres, and yet the mappings of the sphere are
run when the flattening is two. -/
theorem create_shape (hop : (create P).run.value = .ok op) :
    (P.ellipsoid.Oblate ∧ (op.RunsSphere ↔ P.ellipsoid.isSphere = true)) ∨
      (0 < P.ellipsoid.semimajor ∧ P.ellipsoid.flattening ∈ Set.Ioc 1 2 ∧
        P.ellipsoid.semiminor < 0 ∧ P.ellipsoid.isSphere = false ∧
        (op.RunsSphere ↔ P.ellipsoid.flattening = 2)) := by
  obtain ⟨hvalid, p, hp, rfl⟩ := create_eq_ok.mp hop
  -- The slots are chosen by the squared eccentricity, which vanishes for two flattenings.
  have hslots : (ofProjection P p).RunsSphere ↔
      P.ellipsoid.flattening = 0 ∨ P.ellipsoid.flattening = 2 := by
    rw [runsSphere_ofProjection, ← Ellipsoid.eccentricitySq_eq_zero]
    obtain ⟨aspect, -, rfl⟩ := Projection.centredAt_eq_ok.mp hp
    split_ifs with hsphere
    · simp [hsphere, Projection.ofSphere]
    · cases aspect <;> simp [hsphere, Projection.ofEllipsoid]
  rcases Ellipsoid.eccentricitySq_mem.mp hvalid.eccentricitySq_mem with h | h
  · refine .inl ⟨.of_flattening hvalid.semimajor_pos h, ?_⟩
    have hne : P.ellipsoid.flattening ≠ 2 := (h.2.trans one_lt_two).ne
    rw [hslots, Ellipsoid.isSphere_iff]
    simp [hne]
  · refine .inr ⟨hvalid.semimajor_pos, h, ?_, ?_, ?_⟩
    · exact mul_neg_of_pos_of_neg hvalid.semimajor_pos (by linarith [h.1])
    · rw [Bool.eq_false_iff, Ne, Ellipsoid.isSphere_iff]
      linarith [h.1]
    · have hne : P.ellipsoid.flattening ≠ 0 := by linarith [h.1]
      rw [hslots]
      simp [hne]

/-- A flattening of three halves: the operator is created, the semiminor axis is negative, and the
mappings are those of an ellipsoid. -/
theorem create_shape_turned_inside_out :
    let P : Parameters ℝ := ⟨⟨1, 3 / 2⟩, 0, 0, 0, 0, 1, false⟩
    ∃ op, (create P).run.value = .ok op ∧ P.ellipsoid.semiminor < 0 ∧
      P.ellipsoid.isSphere = false ∧ ¬op.RunsSphere := by
  intro P
  have hmem : P.ellipsoid.eccentricitySq ∈ Set.Ico (0 : ℝ) 1 := by
    rw [Ellipsoid.eccentricitySq_mem]
    exact .inr (by change (3 / 2 : ℝ) ∈ _; constructor <;> norm_num)
  have hvalid : P.Valid := ⟨one_pos, hmem.1, hmem.2, one_pos⟩
  have hop : (create P).run.value = .ok _ := create_eq_ok.mpr
    ⟨hvalid, _, Projection.centredAt_eq_ok.mpr ⟨_, Aspect.ofLatitude_zero, rfl⟩, rfl⟩
  refine ⟨_, hop, ?_⟩
  rcases create_shape hop with ⟨hoblate, -⟩ | ⟨-, -, hsemiminor, hsphere, hslots⟩
  · have hlt : (3 / 2 : ℝ) < 1 := hoblate.flattening_mem.2
    norm_num at hlt
  · refine ⟨hsemiminor, hsphere, fun h => ?_⟩
    have htwo : (3 / 2 : ℝ) = 2 := hslots.mp h
    norm_num at htwo

/-- Machine numbers: an operator is created on an ellipsoid with a negative semiminor axis, on one
that is no sphere and gets the mappings of the sphere, and on one of infinite size. -/
theorem create_on_no_ellipsoid :
    let created (e : Ellipsoid Float) : Option (Operator Float) :=
      (create { Parameters.initial with ellipsoid := e }).run.value.toOption
    let spherical (e : Ellipsoid Float) : Option Bool :=
      (created e).map fun op => op.projection.spheroid?.isNone
    (spherical ⟨1, 1.5⟩ = some false ∧ (⟨1, 1.5⟩ : Ellipsoid Float).semiminor < 0) ∧
      (spherical ⟨1, 2⟩ = some true ∧ (⟨1, 2⟩ : Ellipsoid Float).isSphere = false ∧
        (⟨1, 2⟩ : Ellipsoid Float).semiminor < 0) ∧
      (spherical ⟨Arith.infinity, 0⟩ = some true ∧
        Arith.isFinite (Arith.infinity : Float) = false) := by
  decide +kernel

end Operator

end EqualArea
