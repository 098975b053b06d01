import EqualArea.Binary64.Parts
import EqualArea.Decimal.Grid

/-!
# Decimal texts of a chosen precision

Texts with a fixed number of decimals or of significant digits, rounded from the exact value of
the number, a tie going to the even digit.

* `Decimal.fixed` — a fixed number of places.
* `Decimal.scientific` — a fixed number of significant digits, with an exponent.
* `Decimal.exact` — seventeen significant digits, which tell any two numbers apart.
* `Decimal.compact` — a fixed number of places while the number is small enough for that to show
  no more than a given number of digits, and that many significant digits beyond.
-/

namespace EqualArea.Decimal

/-- How many units of the last of `places` decimals there are in the magnitude. -/
def fixedUnits (places : Nat) (x : Float) : Nat :=
  (roundHalfEven ((Binary64.parts x).magnitude * (10 : Rat) ^ places)).toNat

/-- The text with `places` decimals. -/
def fixed (places : Nat) (x : Float) : String :=
  match special? x with
  | some text => text
  | none =>
    String.ofList
      (signed (Binary64.parts x).negative (positional (fixedUnits places x) places))

/-- The multiple of a power of ten with `count` significant digits closest to a positive ratio.
Rounding up to a power of ten moves on to the next grid. -/
def significant (count : Nat) (r : Rat) : Nat × Int :=
  let e := order r
  let n := (roundHalfEven (r * (10 : Rat) ^ ((count : Int) - 1 - e))).toNat
  if n = Nat.pow 10 count then (Nat.pow 10 (count - 1), e + 1) else (n, e)

/-- The text with `count` significant digits, at least one, and an exponent without a plus sign
or padding. -/
def scientific (count : Nat) (x : Float) : String :=
  match special? x with
  | some text => text
  | none =>
    let p := Binary64.parts x
    let (n, e) := if p.mantissa = 0 then (0, 0) else significant count p.magnitude
    let exponent := signed (e < 0) (digits e.natAbs)
    String.ofList (signed p.negative (positional n (count - 1) ++ 'e' :: exponent))

/-- Seventeen significant digits. -/
def exact (x : Float) : String := scientific 17 x

/-- The text with `places` decimals, without a minus sign before zeros, for a number that takes
fewer than `count` digits that way, and with `count` significant digits otherwise. -/
def compact (count places : Nat) (x : Float) : String :=
  match special? x with
  | some text => text
  | none =>
    let units := fixedUnits places x
    if Nat.pow 10 (count - 1) ≤ units then scientific count x
    else
      let negative := (Binary64.parts x).negative && units != 0
      String.ofList (signed negative (positional units places))

end EqualArea.Decimal
