import EqualArea.Binary64.Parts
import EqualArea.Decimal.Grid

/-!
# The shortest decimal text of a binary64 number

The text with the fewest significant digits that reads back as the same number, always
positional: no exponent, no point after a whole number.  This is how numbers stand in messages.

* `Decimal.onGrid?` — the point of the grid with so many significant digits that reads back.
* `Decimal.fewest` — the digits and the place of the last one.
* `Decimal.shortest` — the text.

**Design.**  A grid with more digits is tried only after all coarser ones have failed, and on a
grid only the two neighbours of the value are tried: if any point of the grid reads back, so
does one of them.  Of two that read back the nearer wins, and of two equally near the upper.
Seventeen digits always suffice.
-/

namespace EqualArea.Decimal

open Binary64 (Parts)

/-- The point of the grid with `count` significant digits that reads back as the number, as a
multiple of the power of ten that comes with it. -/
def onGrid? (p : Parts) (count : Nat) : Option (Nat × Int) :=
  let value := p.magnitude
  let place := order value - (count - 1 : Nat)
  let unit := (10 : Rat) ^ place
  let lower := (value / unit).floor.toNat
  let upper := lower + 1
  let lowerReads := decide (p.Rounds (lower * unit))
  let upperReads := decide (p.Rounds (upper * unit))
  match lowerReads, upperReads with
  | true, true =>
    some (if value - lower * unit < upper * unit - value then lower else upper, place)
  | true, false => some (lower, place)
  | false, true => some (upper, place)
  | false, false => none

/-- The fewest digits that read back, for a number other than zero. -/
def fewest (p : Parts) : Nat × Int :=
  ((List.range 17).findSome? fun n => onGrid? p (n + 1)).getD (0, 0)

/-- The positional text of a multiple of a power of ten, without zeros that say nothing. -/
def plain (n : Nat) (place : Int) : List Char :=
  match place with
  | .ofNat k => digits (n * Nat.pow 10 k)
  | .negSucc k =>
    if n % 10 = 0 then positional (n / 10) k else positional n (k + 1)

/-- The shortest positional text that reads back. -/
def shortest (x : Float) : String :=
  match special? x with
  | some text => text
  | none =>
    let p := Binary64.parts x
    let (n, place) := if p.mantissa = 0 then (0, 0) else fewest p
    String.ofList (signed p.negative (plain n place))

end EqualArea.Decimal
