import EqualArea.Coordinate.Lawful
import EqualArea.Coordinate.Transform
import Mathlib

/-!
# Transforming a set is mapping its list

What the transformation of a lawful set makes of the list of its members, for numbers of any kind.

* `CoordinateSet.replacement`, `CoordinateSet.hasImage`, `CoordinateSet.refusal?` — what becomes of
  one member, whether it counts, and why it does not.
* `CoordinateSet.Transformed` — the transformation has come as far as an index.
* `Transformed.step`, `transformed_range` — one member more, and as many as there are.
* `toList_transform`, `successes_transform`, `refusals_transform` — the whole transformation.

**Design.**  The members up to the index are mapped and the others untouched, so a member is read
as it was in the beginning, whatever has become of those before it.
-/

namespace EqualArea.CoordinateSet

open LawfulCoordinateSet (toList)

variable {α : Type} [Arith α]

/-- What a member is replaced by. -/
def replacement (f : Coordinate α → Except Refusal (Coordinate α)) (c : Coordinate α) :
    Coordinate α :=
  match f c with
  | .ok d => d
  | .error _ => Coordinate.nan

/-- Whether a member has an image and is counted. -/
def hasImage (f : Coordinate α → Except Refusal (Coordinate α)) (c : Coordinate α) : Bool :=
  (f c).isOk

/-- Why a member has no image, unless it has one. -/
def refusal? (f : Coordinate α → Except Refusal (Coordinate α)) (c : Coordinate α) :
    Option Refusal :=
  match f c with
  | .ok _ => none
  | .error refusal => some refusal

variable {σ : Type} [CoordinateSet σ α] [LawfulCoordinateSet σ α]
  {f : Coordinate α → Except Refusal (Coordinate α)} {s : σ} {out : Outcome σ}

/-- The outcome after the members before an index. -/
structure Transformed (f : Coordinate α → Except Refusal (Coordinate α)) (s : σ) (k : Nat)
    (out : Outcome σ) : Prop where
  toList_eq : toList out.set = ((toList s).take k).map (replacement f) ++ (toList s).drop k
  successes_eq : out.successes = ((toList s).take k).countP (hasImage f)
  refusals_eq : out.refusals = ((toList s).take k).filterMap (refusal? f)

/-- The elements of a member are put where the member is put. -/
lemma setXy?_getD (s : σ) (i : Nat) (c : Coordinate α) :
    (setXy? s i c.first c.second).getD s = put s i c := by
  rw [LawfulCoordinateSet.setXy?_eq]
  rfl

/-- One member more: it is read unchanged, and only it is replaced. -/
lemma Transformed.step {k : Nat} (h : Transformed f s k out) (hk : k < (toList s).length) :
    Transformed f s (k + 1) (transformAt f out k) := by
  obtain ⟨hlist, hsuccesses, hrefusals⟩ := h
  set c := (toList s)[k] with hc
  have htake : (toList s).take (k + 1) = (toList s).take k ++ [c] :=
    (List.take_concat_get' _ _ hk).symm
  have hsplit : toList out.set =
      ((toList s).take k).map (replacement f) ++ c :: (toList s).drop (k + 1) := by
    rw [hlist, List.drop_eq_getElem_cons hk]
  have hlength : (((toList s).take k).map (replacement f)).length = k := by
    rw [List.length_map, List.length_take, Nat.min_eq_left hk.le]
  -- Members from `k` on have not been touched, so what is read is the member of the start.
  have hread : xy? out.set k = some (c.first, c.second) := by
    rw [LawfulCoordinateSet.xy?_eq, LawfulCoordinateSet.get?_eq, hsplit,
      List.getElem?_append_right hlength.le, hlength, Nat.sub_self]
    rfl
  have hput : ∀ d, toList (put out.set k d) =
      (((toList s).take k).map (replacement f) ++ [d]) ++ (toList s).drop (k + 1) := by
    intro d
    rw [LawfulCoordinateSet.toList_put, hsplit, List.set_append_right _ _ hlength.le, hlength,
      Nat.sub_self, List.append_assoc]
    rfl
  have hstep : transformAt f out k = ⟨put out.set k (replacement f c),
      out.successes + (hasImage f c).toNat, out.refusals ++ (refusal? f c).toList⟩ := by
    simp only [transformAt, hread, replacement, hasImage, refusal?]
    cases f c with
    | ok d => simp [Except.isOk, Except.toBool, setXy?_getD]
    | error refusal => simp [Except.isOk, Except.toBool]
  rw [hstep]
  constructor
  · rw [hput, htake, List.map_append]
    rfl
  · rw [htake, List.countP_append, ← hsuccesses, List.countP_singleton]
    cases hasImage f c <;> rfl
  · rw [htake, List.filterMap_append, ← hrefusals]
    cases hc : refusal? f c <;> simp [hc]

/-- As many members as there are, by induction on how many have been transformed. -/
lemma transformed_range (f : Coordinate α → Except Refusal (Coordinate α)) (s : σ) {k : Nat}
    (hk : k ≤ (toList s).length) :
    Transformed f s k ((List.range k).foldl (transformAt f) ⟨s, 0, []⟩) := by
  induction k with
  | zero => exact ⟨by simp, by simp, by simp⟩
  | succ k ih =>
    rw [List.range_succ, List.foldl_append]
    exact (ih (by omega)).step hk

lemma transformed_transform (f : Coordinate α → Except Refusal (Coordinate α)) (s : σ) :
    Transformed f s (toList s).length (transform f s) := by
  unfold transform
  rw [LawfulCoordinateSet.size_eq]
  exact transformed_range f s le_rfl

/-- **Every member is replaced by what its own value gives**, at its own place. -/
theorem toList_transform (f : Coordinate α → Except Refusal (Coordinate α)) (s : σ) :
    toList (transform f s).set = (toList s).map (replacement f) := by
  simpa using (transformed_transform f s).toList_eq

/-- The number of successes is that of the members that have an image. -/
theorem successes_transform (f : Coordinate α → Except Refusal (Coordinate α)) (s : σ) :
    (transform f s).successes = (toList s).countP (hasImage f) := by
  simpa using (transformed_transform f s).successes_eq

/-- The refusals are those of the other members, in their order. -/
theorem refusals_transform (f : Coordinate α → Except Refusal (Coordinate α)) (s : σ) :
    (transform f s).refusals = (toList s).filterMap (refusal? f) := by
  simpa using (transformed_transform f s).refusals_eq

end EqualArea.CoordinateSet
