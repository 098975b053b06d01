import EqualArea.Arith

/-!
# Number literals

The texts that name a number: an optional sign, and then either digits with an optional point
among them and an optional exponent, or a word for infinity or for no number.

* `Decimal.Literal` — what such a text names, before any rounding.
* `Decimal.Literal.read?` — the reader; it takes the whole text or nothing.
* `Decimal.Literal.value` — the number of a type of numbers closest to it.

**Design.**  The reader yields digits and an exponent as integers, so what a text names does not
depend on the type of numbers it is rounded to.  Only ASCII digits and letters take part.
-/

namespace EqualArea.Decimal

/-- What a literal names. -/
inductive Literal where
  /-- The number `±m · 10 ^ e`. -/
  | number (negative : Bool) (m : Nat) (e : Int)
  /-- What is beyond every number, on the side of the sign. -/
  | infinite (negative : Bool)
  /-- What is no number. -/
  | notANumber
  deriving DecidableEq, Repr

namespace Literal

/-- The sign a text starts with, and the text after it. -/
def takeSign : List Char → Bool × List Char
  | '-' :: rest => (true, rest)
  | '+' :: rest => (false, rest)
  | rest => (false, rest)

/-- The natural number a list of digits stands for. -/
def natOfDigits (text : List Char) : Nat :=
  text.foldl (fun n c => 10 * n + (c.toNat - '0'.toNat)) 0

/-- Digits, at least one, up to the end of the text. -/
def digitsToEnd? (text : List Char) : Option Nat :=
  if text ≠ [] ∧ text.all Char.isDigit then some (natOfDigits text) else none

/-- The exponent a text consists of: nothing, or a mark, an optional sign and digits. -/
def exponent? : List Char → Option Int
  | [] => some 0
  | mark :: rest =>
    if mark = 'e' ∨ mark = 'E' then
      let (negative, rest) := takeSign rest
      (digitsToEnd? rest).map fun n => if negative then -(n : Int) else n
    else none

/-- The digits after a point, if a point comes next, and the text after them. -/
def takeFraction : List Char → List Char × List Char
  | '.' :: rest => rest.span Char.isDigit
  | rest => ([], rest)

/-- Digits with an optional point among them, and an optional exponent. -/
def number? (negative : Bool) (text : List Char) : Option Literal :=
  let (whole, rest) := text.span Char.isDigit
  let (fraction, rest) := takeFraction rest
  if whole = [] ∧ fraction = [] then none
  else (exponent? rest).map fun e =>
    .number negative (natOfDigits (whole ++ fraction)) (e - fraction.length)

/-- The literal a text consists of; the words are read in any case. -/
def read? (text : List Char) : Option Literal :=
  let (negative, text) := takeSign text
  let word := String.ofList (text.map Char.toLower)
  if word = "inf" ∨ word = "infinity" then some (.infinite negative)
  else if word = "nan" then some .notANumber
  else number? negative text

variable {α : Type} [Arith α]

/-- The number closest to what a literal names. -/
def value : Literal → α
  | .number negative m e =>
    if negative then -(Arith.ofDecimal m e) else Arith.ofDecimal m e
  | .infinite negative => if negative then -Arith.infinity else Arith.infinity
  | .notANumber => Arith.nan

end Literal

end EqualArea.Decimal
