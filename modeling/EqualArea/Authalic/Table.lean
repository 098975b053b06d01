import EqualArea.Series

/-!
# The series for the authalic latitude

The differences between geographic and authalic latitude are sine series of the double latitude,
whose coefficients are power series of the third flattening.  This module holds their factors up
to the sixth power.

* `Authalic.Coefficients` — the coefficients of both series in one buffer, and its two halves.
* `Authalic.table` — the factors.
* `Authalic.coefficients` — the coefficients at a third flattening.

**Design.**  The factors are quotients of integers and are written so.  The row of the `k`-fold
double latitude starts with `k - 1` zeros, since its power series starts with the `k`-th power.
Either half of the buffer is read off by its place alone, so it is the series that was put in
because the table has as many rows as a half has places.
-/

namespace EqualArea.Authalic

variable {α : Type}

/-! ## The buffer -/

/-- The number of coefficients of either series. -/
def order : Nat := 6

/-- The coefficients of both series in one buffer, those of the way forth first. -/
structure Coefficients (α : Type) where
  /-- The coefficients, one series after the other. -/
  buffer : List α

/-- Two series, put into a buffer. -/
def Coefficients.ofSeries (s : Series.Coefficients α) : Coefficients α := ⟨s.forward ++ s.inverse⟩

/-- The coefficients from the geographic to the authalic latitude. -/
def Coefficients.forward (c : Coefficients α) : List α := c.buffer.take order

/-- The coefficients from the authalic to the geographic latitude. -/
def Coefficients.inverse (c : Coefficients α) : List α := c.buffer.drop order

/-! ## The table -/

variable [Arith α]

/-- The factors of the powers of the third flattening, for each multiple of the double
latitude. -/
def table : Series.Table α where
  forward :=
    [[-4 / 3, -4 / 45, 88 / 315, 538 / 4725, 20824 / 467775, -44732 / 2837835],
      [0, 34 / 45, 8 / 105, -2482 / 14175, -37192 / 467775, -12467764 / 212837625],
      [0, 0, -1532 / 2835, -898 / 14175, 54968 / 467775, 100320856 / 1915538625],
      [0, 0, 0, 6007 / 14175, 24496 / 467775, -5884124 / 70945875],
      [0, 0, 0, 0, -23356 / 66825, -839792 / 19348875],
      [0, 0, 0, 0, 0, 570284222 / 1915538625]]
  inverse :=
    [[4 / 3, 4 / 45, -16 / 35, -2582 / 14175, 60136 / 467775, 28112932 / 212837625],
      [0, 46 / 45, 152 / 945, -11966 / 14175, -21016 / 51975, 251310128 / 638512875],
      [0, 0, 3044 / 2835, 3802 / 14175, -94388 / 66825, -8797648 / 10945935],
      [0, 0, 0, 6059 / 4725, 41072 / 93555, -1472637812 / 638512875],
      [0, 0, 0, 0, 768272 / 467775, 455935736 / 638512875],
      [0, 0, 0, 0, 0, 4210684958 / 1915538625]]

/-- The coefficients of both series at a third flattening. -/
def coefficients (n : α) : Coefficients α := .ofSeries (table.coefficients n)

theorem coefficients_forward (n : α) :
    (coefficients n).forward = (table : Series.Table α).forward.map (Series.parametric n) := rfl

theorem coefficients_inverse (n : α) :
    (coefficients n).inverse = (table : Series.Table α).inverse.map (Series.parametric n) := rfl

end EqualArea.Authalic
