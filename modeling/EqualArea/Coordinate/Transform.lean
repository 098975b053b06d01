import EqualArea.Coordinate.Set
import EqualArea.Fault

/-!
# Transforming a set point by point

* `CoordinateSet.Outcome` — the transformed set, how many of its members have an image, and why
  the others have none.
* `CoordinateSet.transform` — the members replaced one after the other by their images.

**Design.**  A member is read, mapped and replaced before the next one is read, and the size is
the one at the start.  A member without an image becomes the coordinate that is nowhere.
-/

namespace EqualArea.CoordinateSet

/-- What comes of transforming a set. -/
structure Outcome (σ : Type) where
  /-- The set. -/
  set : σ
  /-- The number of members that have an image. -/
  successes : Nat
  /-- Why the others have none, in the order of the members. -/
  refusals : List Refusal

variable {α : Type} [Arith α] {σ : Type} [CoordinateSet σ α]

/-- The outcome with the member at an index transformed too. -/
def transformAt (f : Coordinate α → Except Refusal (Coordinate α)) (out : Outcome σ) (i : Nat) :
    Outcome σ :=
  match xy? out.set i with
  | none => out
  | some (x, y) =>
    match f ⟨x, y⟩ with
    | .ok c =>
      { out with
        set := (setXy? out.set i c.first c.second).getD out.set
        successes := out.successes + 1 }
    | .error refusal =>
      { out with
        set := put out.set i Coordinate.nan
        refusals := out.refusals ++ [refusal] }

/-- Every member replaced by its image, from the first on. -/
def transform (f : Coordinate α → Except Refusal (Coordinate α)) (s : σ) : Outcome σ :=
  (List.range (size s)).foldl (transformAt f) ⟨s, 0, []⟩

end EqualArea.CoordinateSet
