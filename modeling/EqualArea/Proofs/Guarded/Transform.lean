import EqualArea.Coordinate.Lawful
import EqualArea.Coordinate.Transform
import EqualArea.Proofs.Guarded.Lift

/-!
# Transforming arrays of other numbers

* `CoordinateSet.transformAt_map` — one step of the transformation of an array, carried over to
  other numbers along with the point map.
* `CoordinateSet.transform_map` — the whole transformation.
-/

namespace EqualArea

namespace CoordinateSet

variable {α β : Type} {φ : α → β}

/-- The outcome with other numbers. -/
def Outcome.map (φ : α → β) (out : Outcome (Array (Coordinate α))) :
    Outcome (Array (Coordinate β)) :=
  ⟨out.set.map (Coordinate.map φ), out.successes, out.refusals⟩

variable [Arith α] [Arith β]

lemma xy?_map (s : Array (Coordinate α)) (i : ℕ) :
    xy? (s.map (Coordinate.map φ)) i = (xy? s i).map (Prod.map φ φ) := by
  change ((s.map (Coordinate.map φ))[i]?).map _ = (s[i]?.map _).map _
  rw [Array.getElem?_map]
  cases s[i]? <;> rfl

lemma toList_put (s : Array (Coordinate α)) (i : ℕ) (c : Coordinate α) :
    (put s i c).toList = s.toList.set i c := LawfulCoordinateSet.toList_put s i c

lemma put_map (s : Array (Coordinate α)) (i : ℕ) (c : Coordinate α) :
    put (s.map (Coordinate.map φ)) i (c.map φ) = (put s i c).map (Coordinate.map φ) := by
  apply Array.ext'
  rw [toList_put, Array.toList_map, Array.toList_map, toList_put, List.map_set]

variable {f : Coordinate α → Except Refusal (Coordinate α)}
  {g : Coordinate β → Except Refusal (Coordinate β)}

/-- A member is read, mapped and replaced as before, with other numbers. -/
lemma transformAt_map (hnan : φ Arith.nan = Arith.nan)
    (hg : ∀ c, g (c.map φ) = (f c).map (Coordinate.map φ))
    (out : Outcome (Array (Coordinate α))) (i : ℕ) :
    transformAt g (out.map φ) i = (transformAt f out i).map φ := by
  have hread : xy? (out.map φ).set i = (xy? out.set i).map (Prod.map φ φ) := xy?_map out.set i
  unfold transformAt
  rw [hread]
  cases hxy : xy? out.set i with
  | none => rfl
  | some xy =>
    obtain ⟨x, y⟩ := xy
    have hpoint : g ⟨φ x, φ y⟩ = (f ⟨x, y⟩).map (Coordinate.map φ) := hg ⟨x, y⟩
    have hstomp : (Coordinate.nan : Coordinate β) = Coordinate.nan.map φ := by
      simp [Coordinate.nan, Coordinate.map, hnan]
    simp only [Option.map_some, Prod.map, hpoint]
    cases f ⟨x, y⟩ with
    | error refusal =>
      simp only [Except.map, Outcome.map, hstomp, put_map]
    | ok c =>
      have hput : ((setXy? (out.set.map (Coordinate.map φ)) i (φ c.first) (φ c.second)).getD
          (out.set.map (Coordinate.map φ))) =
            ((setXy? out.set i c.first c.second).getD out.set).map (Coordinate.map φ) :=
        put_map out.set i c
      simp only [Except.map, Outcome.map, Coordinate.map, hput]

/-- A transformation with other numbers is the transformation, with other numbers. -/
theorem transform_map (hnan : φ Arith.nan = Arith.nan)
    (hg : ∀ c, g (c.map φ) = (f c).map (Coordinate.map φ)) (s : Array (Coordinate α)) :
    transform g (s.map (Coordinate.map φ)) = (transform f s).map φ := by
  have hsize : size (s.map (Coordinate.map φ)) = size s := Array.size_map ..
  have hfold : (List.range (size s)).foldl (transformAt g) (Outcome.map φ ⟨s, 0, []⟩) =
      ((List.range (size s)).foldl (transformAt f) ⟨s, 0, []⟩).map φ :=
    List.foldl_hom (Outcome.map φ) (transformAt_map hnan hg)
  unfold transform
  rw [hsize]
  exact hfold

end CoordinateSet

end EqualArea
