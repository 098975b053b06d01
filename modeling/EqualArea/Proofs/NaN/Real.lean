import EqualArea.Proofs.Guarded.Operator
import EqualArea.Proofs.NaN.Arith

/-!
# The real numbers and one value that is none

A carrier with exact arithmetic in which operations outside their domain give no number, and in
which the laws of the value that is no number hold throughout.

* `Verdict.never` — no comparison with nothing succeeds.
* `NaNReal` — real numbers, or nothing, with nothing as the value that is no number.
* the instance of `LawfulNaN.Elementary`.
* `NaNReal.exists_create` — parameters of operators on real numbers are such here too.

**Design.**  The operations are those of `Guarded`; what stands for the value that is no number
there, where no statement reads it, is the undefined value here.
-/

namespace EqualArea

/-- No comparison with nothing succeeds, and nothing is not finite. -/
def Verdict.never : Verdict := ⟨fun _ _ => false, fun _ _ => false, fun _ _ => false, false⟩

/-- A real number, or the value that is no number. -/
def NaNReal : Type := Guarded Verdict.never

noncomputable instance : Arith NaNReal :=
  { (inferInstance : Arith (Guarded Verdict.never)) with nan := Guarded.undefined }

namespace NaNReal

open Arith (isNaN)

variable {x y : NaNReal}

/-- Nothing is the one value that is no number. -/
lemma isNaN_iff : isNaN x ↔ x = Guarded.undefined := by
  cases x with
  | of x =>
    have hnumber : isNaN (Guarded.of x : Guarded Verdict.never) = false := by simp
    constructor
    · intro h
      exact absurd (hnumber.symm.trans h) Bool.false_ne_true
    · intro h
      cases h
  | undefined =>
    have hnothing : isNaN (Guarded.undefined : Guarded Verdict.never) = true := by
      rw [isNaN, Bool.not_eq_true']
      exact @decide_eq_false _ (Classical.propDecidable _) Bool.false_ne_true
    exact ⟨fun _ => rfl, fun _ => hnothing⟩

/-- An operation that gives nothing for nothing. -/
lemma isNaN_of {g : NaNReal → NaNReal} (hg : g Guarded.undefined = Guarded.undefined)
    (h : isNaN x) : isNaN (g x) := by
  rw [isNaN_iff] at h ⊢
  rw [h, hg]

/-- An operation on two numbers that gives nothing for nothing, on either side. -/
lemma isNaN_of₂ {g : NaNReal → NaNReal → NaNReal}
    (hleft : ∀ u, g Guarded.undefined u = Guarded.undefined)
    (hright : ∀ u, g u Guarded.undefined = Guarded.undefined) (h : isNaN x ∨ isNaN y) :
    isNaN (g x y) := by
  rw [isNaN_iff, isNaN_iff] at h
  rw [isNaN_iff]
  rcases h with rfl | rfl
  · exact hleft y
  · exact hright x

/-- A comparison with nothing fails. -/
lemma not_compare {r : ℝ → ℝ → Prop} (h : isNaN x ∨ isNaN y) :
    ¬Guarded.compare (fun _ _ => false) r x y := by
  rw [isNaN_iff, isNaN_iff] at h
  rcases h with rfl | rfl
  · exact Bool.false_ne_true
  · cases x <;> exact Bool.false_ne_true

instance : LawfulNaN.Elementary NaNReal where
  isNaN_nan := isNaN_iff.mpr rfl
  not_lt := not_compare
  not_le := not_compare
  beq_eq_false h := @decide_eq_false _ (Classical.propDecidable _) (not_compare h)
  isFinite_eq_false h := by
    rw [isNaN_iff.mp h]
    rfl
  isNaN_add := isNaN_of₂ (fun _ => rfl) (fun u => by cases u <;> rfl)
  isNaN_sub := isNaN_of₂ (fun _ => rfl) (fun u => by cases u <;> rfl)
  isNaN_mul := isNaN_of₂ (fun _ => rfl) (fun u => by cases u <;> rfl)
  isNaN_mulAdd {x y z} h := by
    have hproduct (h : isNaN x ∨ isNaN y) : isNaN (Guarded.total₂ (· * ·) x y : NaNReal) :=
      isNaN_of₂ (fun _ => rfl) (fun u => by cases u <;> rfl) h
    exact isNaN_of₂ (g := Guarded.total₂ (· + ·)) (fun _ => rfl) (fun u => by cases u <;> rfl)
      ((or_assoc.mpr h).imp_left hproduct)
  isNaN_div := isNaN_of₂ (fun _ => rfl) (fun u => by cases u <;> rfl)
  isNaN_neg := isNaN_of rfl
  isNaN_abs := isNaN_of rfl
  isNaN_sqrt := isNaN_of rfl
  isNaN_rem := isNaN_of₂ (fun _ => rfl) (fun u => by cases u <;> rfl)
  isNaN_hypot hx hy := isNaN_of₂ (fun _ => rfl) (fun u => by cases u <;> rfl) (.inl hx)
  isNaN_sin := isNaN_of rfl
  isNaN_cos := isNaN_of rfl
  isNaN_asin := isNaN_of rfl
  isNaN_atan2 := isNaN_of₂ (fun _ => rfl) (fun u => by cases u <;> rfl)

/-- The real number, as a number that may be none. -/
def of (x : ℝ) : NaNReal := Guarded.of x

/-- Parameters that define an operator on real numbers define one here. -/
theorem exists_create {P : Parameters ℝ} {op : Operator ℝ}
    (hop : (Operator.create P).run.value = .ok op) :
    ∃ op', (Operator.create (P.map of : Parameters NaNReal)).run.value = .ok op' := by
  obtain ⟨hvalid, p, hp, -⟩ := Operator.create_eq_ok.mp hop
  obtain ⟨aspect, haspect, -⟩ := Projection.centredAt_eq_ok.mp hp
  have hcheck : (P.map of : Parameters NaNReal).check = .ok () := Guarded.check_of hvalid
  have haspect' : Aspect.ofLatitude (P.map of : Parameters NaNReal).latitude = .ok aspect :=
    Guarded.ofLatitude_of (v := Verdict.never) haspect
  rw [Operator.create_value, Operator.ofParameters, hcheck, Projection.centredAt, haspect']
  exact ⟨_, rfl⟩

end NaNReal

end EqualArea
