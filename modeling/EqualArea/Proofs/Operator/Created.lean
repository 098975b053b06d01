import EqualArea.Operator
import EqualArea.Proofs.Construction
import EqualArea.Proofs.Authalic.Integral

/-!
# Operators that have been created

What is known of an operator because it was created from parameters.

* `Parameters.Valid`, `Parameters.check_eq_ok` — what the check of the parameters comes to.
* `Operator.ofParameters_eq_ok`, `Operator.create_eq_ok` — the operators that can be created, over
  numbers of any kind and over the real numbers.
* `Projection.forward`, `Projection.inverse`, `Operator.pointMap?_ofProjection` — what their slots
  run.
* `Operator.onMap_ok`, `Operator.onMap_error`, `Operator.offMap_ok` — what lies around the mappings
  of the projection.
-/

namespace EqualArea

section

variable {α : Type} [Arith α]

/-- The mapping to the plane a projection has the constants for. -/
def Projection.forward (p : Projection α) : α → α → Except Refusal (Coordinate α) :=
  if p.spheroid?.isSome then p.forwardEllipsoid else p.forwardSphere

/-- The mapping from the plane a projection has the constants for. -/
def Projection.inverse (p : Projection α) : α → α → Except Refusal (Coordinate α) :=
  if p.spheroid?.isSome then p.inverseEllipsoid else p.inverseSphere

/-- Both slots of a new operator are connected, and an inverted one runs them the other way
round. -/
theorem Operator.pointMap?_ofProjection (P : Parameters α) (p : Projection α)
    (direction : Direction) :
    (ofProjection P p).pointMap? direction =
      some (if P.inverted = decide (direction = .forward) then
          (ofProjection P p).offMap p.inverse
        else (ofProjection P p).onMap p.forward) := by
  unfold pointMap? inverseMap? forwardMap? Projection.forward Projection.inverse
  cases h : p.spheroid?.isSome <;> simp [ofProjection, h] <;> split_ifs <;> rfl

/-- Parameters that meet the conditions define an operator around the projection of their
ellipsoid, and no other parameters define one. -/
theorem Operator.ofParameters_eq_ok {P : Parameters α} {op : Operator α} :
    ofParameters P = .ok op ↔
      P.check = .ok () ∧ ∃ p, Projection.centredAt P.latitude P.ellipsoid = .ok p ∧
        op = ofProjection P p := by
  unfold ofParameters
  cases hcheck : P.check with
  | error fault => simp [bind, Except.bind]
  | ok u =>
    cases hcentred : Projection.centredAt P.latitude P.ellipsoid with
    | error fault => simp [bind, Except.bind]
    | ok p =>
      simp only [bind, Except.bind, pure, Except.pure, Except.ok.injEq, exists_eq_left', true_and]
      exact eq_comm

/-- Creating an operator with a log is creating it, with the log beside. -/
lemma Operator.create_value (P : Parameters α) : (create P).run.value = ofParameters P := by
  unfold create
  cases h : ofParameters P with
  | error fault => rfl
  | ok op => rfl

/-- A new operator is announced in the log. -/
lemma Operator.create_of_ok {P : Parameters α} {op : Operator α} (h : ofParameters P = .ok op) :
    (create P).run = ⟨.ok op, [op.projection.record]⟩ := by
  unfold create
  rw [h]
  rfl

namespace Operator

lemma onMap_ok (op : Operator α) (c : Coordinate α)
    {f : α → α → Except Refusal (Coordinate α)} {d : Coordinate α}
    (h : f (c.first - op.parameters.meridian) c.second = .ok d) :
    op.onMap f c = .ok ⟨op.unit * d.first + op.parameters.falseEasting,
      op.unit * d.second + op.parameters.falseNorthing⟩ := by
  simp only [onMap, h]
  rfl

lemma onMap_error (op : Operator α) (c : Coordinate α)
    {f : α → α → Except Refusal (Coordinate α)} {refusal : Refusal}
    (h : f (c.first - op.parameters.meridian) c.second = .error refusal) :
    op.onMap f c = .error refusal := by
  simp only [onMap, h]
  rfl

lemma offMap_ok (op : Operator α) (c : Coordinate α)
    {f : α → α → Except Refusal (Coordinate α)} {d : Coordinate α}
    (h : f ((c.first - op.parameters.falseEasting) / op.unit)
      ((c.second - op.parameters.falseNorthing) / op.unit) = .ok d) :
    op.offMap f c = .ok ⟨Angle.wrap (d.first + op.parameters.meridian), d.second⟩ := by
  simp only [offMap, h]
  rfl

end Operator

end

/-- The conditions on the parameters of an operator.  Every real number is finite, so nothing is
asked of the meridian and the false origin. -/
structure Parameters.Valid (P : Parameters ℝ) : Prop where
  semimajor_pos : 0 < P.ellipsoid.semimajor
  eccentricitySq_nonneg : 0 ≤ P.ellipsoid.eccentricitySq
  eccentricitySq_lt_one : P.ellipsoid.eccentricitySq < 1
  scale_pos : 0 < P.scale

namespace Parameters

variable {P : Parameters ℝ}

lemma check_eq_ok : P.check = .ok () ↔ P.Valid := by
  constructor
  · intro h
    simp only [check] at h
    split_ifs at h with hellipsoid hscale
    exact ⟨hellipsoid.1, hellipsoid.2.1, hellipsoid.2.2, hscale.1⟩
  · rintro ⟨hsemimajor, hnonneg, hlt, hscale⟩
    simp [check, hsemimajor, hnonneg, hlt, hscale]

lemma Valid.eccentricitySq_mem (h : P.Valid) :
    P.ellipsoid.eccentricitySq ∈ Set.Ico (0 : ℝ) 1 :=
  ⟨h.eccentricitySq_nonneg, h.eccentricitySq_lt_one⟩

/-- Valid parameters are those of a sphere or of an ellipsoid that is none. -/
lemma Valid.flattened (h : P.Valid) (hne : P.ellipsoid.eccentricitySq ≠ 0) :
    P.ellipsoid.Flattened :=
  ⟨lt_of_le_of_ne h.eccentricitySq_nonneg hne.symm, h.eccentricitySq_lt_one⟩

end Parameters

namespace Operator

variable {P : Parameters ℝ} {op : Operator ℝ}

/-- An operator is created from valid parameters around the projection of their ellipsoid. -/
theorem create_eq_ok :
    (create P).run.value = .ok op ↔
      P.Valid ∧ ∃ p, Projection.centredAt P.latitude P.ellipsoid = .ok p ∧
        op = ofProjection P p := by
  rw [create_value, ofParameters_eq_ok, Parameters.check_eq_ok]

end Operator

end EqualArea
