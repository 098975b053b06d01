import EqualArea.Proofs.Operator.Created
import EqualArea.Proofs.Transform

/-!
# Applying an operator is mapping a list

What applying an operator does to the list of coordinates of a lawful set, for numbers of any kind.

* `Operator.result`, `Operator.counts` — what becomes of one coordinate, and whether it is counted.
* `Operator.toList_apply`, `Operator.successes_apply` — the set afterwards and the count.
* `Operator.toMap`, `Operator.fromMap` — the directions that run to the map and from it, and, by
  `pointMap?_toMap` and `pointMap?_fromMap`, what they run.

**Design.**  A direction with nothing connected leaves every coordinate as it is and counts none,
so the equations hold of any operator, also one that has been torn down.
-/

namespace EqualArea

namespace Operator

open CoordinateSet (hasImage replacement)
open LawfulCoordinateSet (toList)

variable {α : Type} [Arith α]

/-- What becomes of a coordinate in a direction. -/
def result (op : Operator α) (direction : Direction) (c : Coordinate α) : Coordinate α :=
  match op.pointMap? direction with
  | none => c
  | some f => replacement f c

/-- Whether a coordinate is counted in a direction. -/
def counts (op : Operator α) (direction : Direction) (c : Coordinate α) : Bool :=
  match op.pointMap? direction with
  | none => false
  | some f => hasImage f c

section

variable {σ : Type} [CoordinateSet σ α] [LawfulCoordinateSet σ α]

/-- **Every coordinate becomes what its own value gives**, at its own place. -/
theorem toList_apply (op : Operator α) (direction : Direction) (s : σ) :
    toList (op.apply direction s).value.2 = (toList s).map (op.result direction) := by
  unfold apply result
  cases op.pointMap? direction with
  | none => exact (List.map_id' _).symm
  | some f => exact CoordinateSet.toList_transform f s

/-- The count is that of the coordinates that have a result. -/
theorem successes_apply (op : Operator α) (direction : Direction) (s : σ) :
    (op.apply direction s).value.1 = (toList s).countP (op.counts direction) := by
  unfold apply counts
  cases op.pointMap? direction with
  | none => exact (List.countP_eq_zero.mpr (by simp)).symm
  | some f => exact CoordinateSet.successes_transform f s

end

lemma result_of_ok {op : Operator α} {direction : Direction}
    {f : Coordinate α → Except Refusal (Coordinate α)} {c d : Coordinate α}
    (hf : op.pointMap? direction = some f) (hd : f c = .ok d) : op.result direction c = d := by
  simp only [result, hf, replacement, hd]

lemma counts_of_ok {op : Operator α} {direction : Direction}
    {f : Coordinate α → Except Refusal (Coordinate α)} {c d : Coordinate α}
    (hf : op.pointMap? direction = some f) (hd : f c = .ok d) :
    op.counts direction c = true := by
  simp only [counts, hf, hasImage, hd]
  rfl

lemma counts_of_error {op : Operator α} {direction : Direction}
    {f : Coordinate α → Except Refusal (Coordinate α)} {c : Coordinate α} {refusal : Refusal}
    (hf : op.pointMap? direction = some f) (hd : f c = .error refusal) :
    op.counts direction c = false := by
  simp only [counts, hf, hasImage, hd]
  rfl

/-! ## The directions of a projection -/

/-- The direction that runs to the map: the inverse one, if the operator is inverted. -/
def toMap (op : Operator α) : Direction :=
  if op.descriptor.inverted then .inverse else .forward

/-- The direction that runs from the map. -/
def fromMap (op : Operator α) : Direction :=
  if op.descriptor.inverted then .forward else .inverse

lemma pointMap?_toMap (P : Parameters α) (p : Projection α) :
    (ofProjection P p).pointMap? (ofProjection P p).toMap =
      some ((ofProjection P p).onMap p.forward) := by
  have hinverted : (ofProjection P p).descriptor.inverted = P.inverted := rfl
  rw [pointMap?_ofProjection, toMap, hinverted]
  cases P.inverted <;> rfl

lemma pointMap?_fromMap (P : Parameters α) (p : Projection α) :
    (ofProjection P p).pointMap? (ofProjection P p).fromMap =
      some ((ofProjection P p).offMap p.inverse) := by
  have hinverted : (ofProjection P p).descriptor.inverted = P.inverted := rfl
  rw [pointMap?_ofProjection, fromMap, hinverted]
  cases P.inverted <;> rfl

end Operator

end EqualArea
