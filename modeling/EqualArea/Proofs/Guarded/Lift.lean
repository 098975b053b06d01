import EqualArea.Parameters
import EqualArea.Projection.Basic
import EqualArea.Proofs.Guarded.Arith

/-!
# Values and series of guarded numbers

The data an operator is made of, carried over to guarded numbers, and the parts of the formulas
that are polynomials.

* `Ellipsoid.map`, `Parameters.map`, `Coordinate.map`, `Spheroid.map`, `Projection.map` — the same
  data with other numbers.
* `Guarded.horner_of`, `Guarded.sineSum_of`, `Guarded.authalicCoefficients_of` — polynomials and
  series are defined everywhere, and the factors of the table are quotients by no zero.
-/

namespace EqualArea

section

variable {α β : Type}

/-- The ellipsoid with other numbers. -/
def Ellipsoid.map (f : α → β) (e : Ellipsoid α) : Ellipsoid β := ⟨f e.semimajor, f e.flattening⟩

/-- The coordinate with other numbers. -/
def Coordinate.map (f : α → β) (c : Coordinate α) : Coordinate β := ⟨f c.first, f c.second⟩

/-- The parameters with other numbers. -/
def Parameters.map (f : α → β) (P : Parameters α) : Parameters β where
  ellipsoid := P.ellipsoid.map f
  latitude := f P.latitude
  meridian := f P.meridian
  falseEasting := f P.falseEasting
  falseNorthing := f P.falseNorthing
  scale := f P.scale
  inverted := P.inverted

/-- The coefficients with other numbers. -/
def Authalic.Coefficients.map (f : α → β) (c : Authalic.Coefficients α) :
    Authalic.Coefficients β :=
  ⟨c.buffer.map f⟩

lemma Authalic.Coefficients.forward_map (f : α → β) (c : Authalic.Coefficients α) :
    (c.map f).forward = c.forward.map f := List.map_take.symm

lemma Authalic.Coefficients.inverse_map (f : α → β) (c : Authalic.Coefficients α) :
    (c.map f).inverse = c.inverse.map f := List.map_drop.symm

/-- The constants with other numbers. -/
def Spheroid.map (f : α → β) (s : Spheroid α) : Spheroid β where
  ellipsoid := s.ellipsoid.map f
  poleIntegral := f s.poleIntegral
  halfReciprocal := f s.halfReciprocal
  authalicRadius := f s.authalicRadius
  stretch := f s.stretch
  eastFactor := f s.eastFactor
  northFactor := f s.northFactor
  series := s.series.map f

/-- The projection with other numbers. -/
def Projection.map (f : α → β) (p : Projection α) : Projection β where
  aspect := p.aspect
  latitude := f p.latitude
  sinCentre := f p.sinCentre
  cosCentre := f p.cosCentre
  spheroid? := p.spheroid?.map (Spheroid.map f)

end

namespace Guarded

open Series

variable {v : Verdict}

/-! ## Polynomials and series -/

lemma horner_of (x : ℝ) (l : List ℝ) :
    (horner (of x) (l.map of) : Guarded v) = of (horner x l) := by
  induction l with
  | nil => rfl
  | cons c rest ih =>
    cases rest with
    | nil => rfl
    | cons d rest =>
      simp only [List.map_cons, horner_cons_cons] at ih ⊢
      rw [ih]
      rfl

lemma clenshaw_of (x : ℝ) (l : List ℝ) :
    (clenshaw (of x) (l.map of) : Guarded v × Guarded v) =
      (of (clenshaw x l).1, of (clenshaw x l).2) := by
  induction l with
  | nil => rfl
  | cons c rest ih =>
    rw [List.map_cons, clenshaw_cons, ih]
    rfl

lemma sineSumOfTrig_of (sin cos : ℝ) (l : List ℝ) :
    (sineSumOfTrig (of sin) (of cos) (l.map of) : Guarded v) = of (sineSumOfTrig sin cos l) := by
  simp only [sineSumOfTrig, ofNat_eq, of_mul, clenshaw_of]

lemma sineSum_of (angle : ℝ) (l : List ℝ) :
    (sineSum (of angle) (l.map of) : Guarded v) = of (sineSum angle l) :=
  sineSumOfTrig_of (Real.sin angle) (Real.cos angle) l

/-! ## The table -/

lemma table_eq : (Authalic.table : Table (Guarded v)) =
    ⟨Authalic.table.forward.map (List.map of), Authalic.table.inverse.map (List.map of)⟩ := by
  simp (disch := norm_num) [Authalic.table, of_div]

lemma coefficients_of (n : ℝ) :
    (Authalic.coefficients (of n) : Authalic.Coefficients (Guarded v)) =
      (Authalic.coefficients n).map of := by
  have hparametric : (fun row => parametric (of n) (row.map of) : List ℝ → Guarded v) =
      fun row => of (parametric n row) := by
    funext row
    simp only [parametric, horner_of, of_mul]
  simp only [Authalic.coefficients, Authalic.Coefficients.ofSeries, Table.coefficients,
    Authalic.Coefficients.map, table_eq, List.map_append, List.map_map, Function.comp_def,
    hparametric]

end Guarded

end EqualArea
