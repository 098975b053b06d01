import EqualArea.Binary64.Arith
import Mathlib

/-!
# Arithmetic with a value that is no number

What is known of the value that is no number, wherever there is one: it compares with nothing, and
what is computed from it is no number either.

* `LawfulNaN` — the laws for comparisons, the field operations, the square root, remainders and
  lengths.
* `LawfulNaN.Elementary` — the same for the elementary functions.
* `Arith.isNaN_clamp` and `LawfulNaN.eq_false_of_lt` with its companions — what follows from the
  laws.
* the instance of `LawfulNaN` at binary64 numbers.

**Design.**  The laws say when a result is no number and never when it is one, so they hold of
binary64 numbers, where an operation on numbers may give none.  A length is no number only when both
legs are none, because an infinite leg wins.  The elementary functions of binary64 come from the
machine and are not defined here, so their laws are a class of their own.
-/

namespace EqualArea

open Arith (isNaN)

/-- The value that is no number compares with nothing and is handed on by the operations. -/
class LawfulNaN (α : Type) [Arith α] : Prop where
  isNaN_nan : isNaN (Arith.nan : α)
  not_lt : ∀ {x y : α}, isNaN x ∨ isNaN y → ¬x < y
  not_le : ∀ {x y : α}, isNaN x ∨ isNaN y → ¬x ≤ y
  beq_eq_false : ∀ {x y : α}, isNaN x ∨ isNaN y → (x == y) = false
  isFinite_eq_false : ∀ {x : α}, isNaN x → Arith.isFinite x = false
  isNaN_add : ∀ {x y : α}, isNaN x ∨ isNaN y → isNaN (x + y)
  isNaN_sub : ∀ {x y : α}, isNaN x ∨ isNaN y → isNaN (x - y)
  isNaN_mul : ∀ {x y : α}, isNaN x ∨ isNaN y → isNaN (x * y)
  isNaN_mulAdd : ∀ {x y z : α}, isNaN x ∨ isNaN y ∨ isNaN z → isNaN (Arith.mulAdd x y z)
  isNaN_div : ∀ {x y : α}, isNaN x ∨ isNaN y → isNaN (x / y)
  isNaN_neg : ∀ {x : α}, isNaN x → isNaN (-x)
  isNaN_abs : ∀ {x : α}, isNaN x → isNaN (Arith.abs x)
  isNaN_sqrt : ∀ {x : α}, isNaN x → isNaN (Arith.sqrt x)
  isNaN_rem : ∀ {x y : α}, isNaN x ∨ isNaN y → isNaN (Arith.rem x y)
  isNaN_hypot : ∀ {x y : α}, isNaN x → isNaN y → isNaN (Arith.hypot x y)

/-- The elementary functions hand on the value that is no number too. -/
class LawfulNaN.Elementary (α : Type) [Arith α] : Prop extends LawfulNaN α where
  isNaN_sin : ∀ {x : α}, isNaN x → isNaN (Arith.sin x)
  isNaN_cos : ∀ {x : α}, isNaN x → isNaN (Arith.cos x)
  isNaN_asin : ∀ {x : α}, isNaN x → isNaN (Arith.asin x)
  isNaN_atan2 : ∀ {x y : α}, isNaN y ∨ isNaN x → isNaN (Arith.atan2 y x)

namespace LawfulNaN

attribute [grind ←] isNaN_nan not_lt not_le beq_eq_false isFinite_eq_false isNaN_add isNaN_sub
  isNaN_mul isNaN_mulAdd isNaN_div isNaN_neg isNaN_abs isNaN_sqrt isNaN_rem isNaN_hypot

attribute [grind ←] Elementary.isNaN_sin Elementary.isNaN_cos Elementary.isNaN_asin
  Elementary.isNaN_atan2

variable {α : Type} [Arith α] [LawfulNaN α] {x y : α}

/-! ## What compares is a number -/

lemma eq_false_of_lt (h : x < y) : isNaN x = false ∧ isNaN y = false := by
  rw [← Bool.not_eq_true, ← Bool.not_eq_true, ← not_or]
  exact fun hnan => not_lt hnan h

lemma eq_false_of_le (h : x ≤ y) : isNaN x = false ∧ isNaN y = false := by
  rw [← Bool.not_eq_true, ← Bool.not_eq_true, ← not_or]
  exact fun hnan => not_le hnan h

lemma eq_false_of_isFinite (h : Arith.isFinite x = true) : isNaN x = false := by
  rw [← Bool.not_eq_true]
  intro hnan
  rw [isFinite_eq_false hnan] at h
  exact Bool.false_ne_true h

lemma eq_false_of_mul (h : isNaN (x * y) = false) : isNaN x = false := by
  rw [← Bool.not_eq_true]
  intro hnan
  rw [isNaN_mul (.inl hnan)] at h
  exact Bool.false_ne_true h.symm

omit [LawfulNaN α] in
/-- A number compares equal to itself. -/
lemma beq_self_iff : (x == x) = true ↔ isNaN x = false := by
  rw [isNaN, Bool.not_eq_false']

/-- Clamping keeps what is no number. -/
@[grind ←] lemma isNaN_clamp {lo hi : α} (h : isNaN x) : isNaN (Arith.clamp lo hi x) := by
  rw [Arith.clamp, if_neg (not_lt (.inl h)), if_neg (not_lt (.inr h))]
  exact h

end LawfulNaN

/-! ## Binary64 numbers -/

namespace Binary64

open Float.Model (UnpackedFloat)

/-- There is one value of binary64 that is no number. -/
lemma isNaN_iff {x : Float} : isNaN x = true ↔ x = Float.nan := by
  rw [isNaN, Bool.not_eq_true']
  exact Float.beq_self_eq_false_iff

lemma nan_eq : nan = Float.nan := by decide +kernel

lemma unpack_nan : Float.nan.toModel.unpack = .notANumber :=
  UnpackedFloat.isNaN_iff.mp (by decide +kernel)

lemma pack_nan : Float.ofModel (Float.Model.pack .notANumber) = Float.nan := by decide +kernel

section

variable {x y : Float}

/-- An operation on unpacked numbers that hands on what is no number, on either side. -/
lemma isNaN_pack {f : UnpackedFloat → UnpackedFloat → UnpackedFloat}
    (hleft : ∀ u, f .notANumber u = .notANumber) (hright : ∀ u, f u .notANumber = .notANumber)
    (h : isNaN x ∨ isNaN y) :
    isNaN (Float.ofModel (.pack (f x.toModel.unpack y.toModel.unpack))) := by
  rw [isNaN_iff]
  rcases h with h | h <;> rw [isNaN_iff.mp h, unpack_nan]
  · rw [hleft, pack_nan]
  · rw [hright, pack_nan]

/-- A product and a sum in one hand on what is no number from each of the three. -/
lemma isNaN_mulAdd {z : Float} (h : isNaN x ∨ isNaN y ∨ isNaN z) : isNaN (mulAdd x y z) := by
  have hfirst (v w : UnpackedFloat) : mulAddUnpacked .notANumber v w = .notANumber := by
    cases v <;> cases w <;> rfl
  have hsecond (u w : UnpackedFloat) : mulAddUnpacked u .notANumber w = .notANumber := by
    cases u <;> cases w <;> rfl
  have hsum (p : UnpackedFloat) : p.add .binary64 .notANumber = .notANumber := by
    cases p <;> rfl
  have hthird (u v : UnpackedFloat) : mulAddUnpacked u v .notANumber = .notANumber := by
    simp [mulAddUnpacked, hsum]
  rw [isNaN_iff, mulAdd]
  rcases h with h | h | h <;> rw [isNaN_iff.mp h, unpack_nan]
  · rw [hfirst, pack_nan]
  · rw [hsecond, pack_nan]
  · rw [hthird, pack_nan]

/-- What is no number has no place in the order. -/
lemma compare_eq_none (h : isNaN x ∨ isNaN y) :
    x.toModel.unpack.compare y.toModel.unpack = none := by
  rcases h with h | h <;> rw [isNaN_iff.mp h, unpack_nan]
  · rfl
  · cases x.toModel.unpack <;> rfl

lemma remainder_eq_nan (h : isNaN x ∨ isNaN y) : remainder x y = nan := by
  have hnan : (x.isNaN || y.isNaN) = true := by
    rw [Float.isNaN_eq_decide_eq_nan, Float.isNaN_eq_decide_eq_nan, Bool.or_eq_true,
      decide_eq_true_iff, decide_eq_true_iff]
    exact h.imp isNaN_iff.mp isNaN_iff.mp
  rw [remainder, if_pos (by rw [hnan]; rfl)]

end

instance : LawfulNaN Float where
  isNaN_nan := isNaN_iff.mpr nan_eq
  not_lt {x y} h := by
    change ¬decide ((x.toModel.unpack.compare y.toModel.unpack == some .lt) = true) = true
    simp [compare_eq_none h]
  not_le {x y} h := by
    change ¬decide ((x.toModel.unpack.compare y.toModel.unpack).any (·.isLE) = true) = true
    simp [compare_eq_none h]
  beq_eq_false {x y} h := by
    change (x.toModel.unpack.compare y.toModel.unpack == some .eq) = false
    simp [compare_eq_none h]
  isFinite_eq_false {x} h := by
    change x.toModel.unpack.isFinite = false
    rw [isNaN_iff.mp h, unpack_nan]
    rfl
  isNaN_add := isNaN_pack (f := UnpackedFloat.add .binary64) (fun u => by cases u <;> rfl)
    (fun u => by cases u <;> rfl)
  isNaN_sub := isNaN_pack (f := UnpackedFloat.sub .binary64) (fun u => by cases u <;> rfl)
    (fun u => by cases u <;> rfl)
  isNaN_mul := isNaN_pack (f := UnpackedFloat.mul .binary64) (fun u => by cases u <;> rfl)
    (fun u => by cases u <;> rfl)
  isNaN_mulAdd := isNaN_mulAdd
  isNaN_div := isNaN_pack (f := UnpackedFloat.div .binary64) (fun u => by cases u <;> rfl)
    (fun u => by cases u <;> rfl)
  isNaN_neg {x} h := by
    rw [isNaN_iff, isNaN_iff.mp h]
    decide +kernel
  isNaN_abs {x} h := by
    rw [isNaN_iff, isNaN_iff.mp h]
    decide +kernel
  isNaN_sqrt {x} h := by
    rw [isNaN_iff, isNaN_iff.mp h]
    decide +kernel
  isNaN_rem h := isNaN_iff.mpr ((remainder_eq_nan h).trans nan_eq)
  isNaN_hypot {x y} hx hy := by
    rw [isNaN_iff, isNaN_iff.mp hx, isNaN_iff.mp hy]
    decide +kernel

end Binary64

end EqualArea
