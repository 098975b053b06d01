/-!
# Decimal grids

A decimal text with a given place of its last digit names a point of the grid of multiples of a
power of ten.  This module holds the rule by which a ratio goes to a grid, and the text of a
grid point.

* `Decimal.roundHalfEven` — the nearest integer, a tie going to the even one.
* `Decimal.order` — the power of ten of the leading digit of a positive ratio.
* `Decimal.digits`, `Decimal.positional` — the digits of a natural number, and the text of a
  natural number of units of a power of ten, with a point and without an exponent.

**Design.**  Values are rationals, so that no rule of a text depends on a rounding that has
already happened.
-/

namespace EqualArea.Decimal

/-- The nearest integer; halfway between two, the even one. -/
def roundHalfEven (r : Rat) : Int :=
  let whole := r.floor
  let rest := r - whole
  if rest < 1 / 2 then whole
  else if 1 / 2 < rest then whole + 1
  else if whole % 2 = 0 then whole
  else whole + 1

/-- The decimal digits of a natural number, most significant first. -/
def digits (n : Nat) : List Char := Nat.toDigits 10 n

/-- The exponent `e` with `10 ^ e ≤ r < 10 ^ (e + 1)`, for a positive ratio.  The lengths of
numerator and denominator leave two candidates. -/
def order (r : Rat) : Int :=
  let e := ((digits r.num.natAbs).length : Int) - (digits r.den).length
  if (10 : Rat) ^ e ≤ r then e else e - 1

/-- The positional text of `n · 10 ^ (-places)`, with all its places. -/
def positional (n places : Nat) : List Char :=
  let text := digits n
  let text := List.replicate (places + 1 - text.length) '0' ++ text
  let (whole, fraction) := text.splitAt (text.length - places)
  if places = 0 then whole else whole ++ '.' :: fraction

/-- The text of a number without its sign, with a minus sign before it if there is one. -/
def signed (negative : Bool) (text : List Char) : List Char :=
  if negative then '-' :: text else text

/-- The text of a value that has no digits, if it is one: a sign does not count where there is
no number. -/
def special? (x : Float) : Option String :=
  if x.isNaN then some "NaN"
  else if x.isInf then some (if x < 0 then "-inf" else "inf")
  else none

end EqualArea.Decimal
