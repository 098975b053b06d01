import EqualArea.Arith

/-!
# Polynomials and sine series

Evaluation of a polynomial and of a sine series from the list of its coefficients, lowest first,
and the sine series whose coefficients are themselves polynomials of a small parameter.

* `Series.horner` — `c₀ + c₁ x + c₂ x² + …`.
* `Series.clenshaw`, `Series.sineSumOfTrig`, `Series.sineSum` — `c₁ sin x + c₂ sin 2x + …`.
* `Series.Coefficients`, `Series.Table`, `Series.Table.coefficients` — a pair of sine series that
  go forth and back, and the polynomials their coefficients are values of.

**Design.**  Both evaluators recurse on the list of coefficients, so a list of any length is
summed, and the last coefficient enters first.  A step of either is one `Arith.mulAdd`, which rounds
once.  The leading coefficient of a polynomial is taken as it stands and not added to a zero
multiple of the argument.
-/

namespace EqualArea.Series

variable {α : Type} [Arith α]

/-- The value at `x` of the polynomial with the given coefficients, constant term first. -/
def horner (x : α) : List α → α
  | [] => 0
  | [c] => c
  | c :: d :: rest => Arith.mulAdd (horner x (d :: rest)) x c

@[simp] theorem horner_nil (x : α) : horner x [] = 0 := rfl

@[simp] theorem horner_singleton (x c : α) : horner x [c] = c := rfl

@[simp] theorem horner_cons_cons (x c d : α) (rest : List α) :
    horner x (c :: d :: rest) = Arith.mulAdd (horner x (d :: rest)) x c := rfl

/-- The last two terms of Clenshaw's recurrence `bₖ = cₖ + x bₖ₊₁ - bₖ₊₂`, the first of them the
one the sum is read off from. -/
def clenshaw (x : α) : List α → α × α
  | [] => (0, 0)
  | c :: rest =>
    let b := clenshaw x rest
    (Arith.mulAdd x b.1 (c - b.2), b.1)

@[simp] theorem clenshaw_nil (x : α) : clenshaw x [] = (0, 0) := rfl

@[simp] theorem clenshaw_cons (x c : α) (rest : List α) :
    clenshaw x (c :: rest) =
      (Arith.mulAdd x (clenshaw x rest).1 (c - (clenshaw x rest).2), (clenshaw x rest).1) := rfl

/-- The sine series with the given coefficients at an angle of which sine and cosine are
known. -/
def sineSumOfTrig (sin cos : α) (coefficients : List α) : α :=
  sin * (clenshaw (2 * cos) coefficients).1

/-- The sine series with the given coefficients; the first one belongs to the angle itself, the
next to its double, and so on. -/
def sineSum (angle : α) (coefficients : List α) : α :=
  sineSumOfTrig (Arith.sin angle) (Arith.cos angle) coefficients

/-! ## Series that depend on a parameter -/

/-- Coefficients of two sine series that undo each other. -/
structure Coefficients (α : Type) where
  /-- The series of the conversion. -/
  forward : List α
  /-- The series of the conversion back. -/
  inverse : List α

/-- The coefficients of two sine series as polynomials of a parameter without a constant term:
a row holds the factors of its first power, of its second power, and so on. -/
structure Table (α : Type) where
  /-- The rows of the conversion. -/
  forward : List (List α)
  /-- The rows of the conversion back. -/
  inverse : List (List α)

/-- The value of a polynomial without a constant term. -/
def parametric (n : α) (row : List α) : α := n * horner n row

/-- The coefficients at one value of the parameter. -/
def Table.coefficients (table : Table α) (n : α) : Coefficients α where
  forward := table.forward.map (parametric n)
  inverse := table.inverse.map (parametric n)

end EqualArea.Series
