/-!
# The arithmetic the formulas are written in

Every formula of the library is written once, over a type of numbers with the operations of
`Arith`, and is run at binary64 numbers (`Binary64/Arith.lean`).

* `Arith` — the operations: field operations, a product and a sum in one, order, the elementary
  functions, and the values that stand for "no number" and "beyond every number".
* `Arith.isNaN`, `Arith.clamp`, `Arith.radians`, `Arith.degrees` — what is derived from them.
* numerals and decimal literals of any such type, read through `Arith.ofNat` and
  `Arith.ofDecimal`.

**Design.**  The class has no laws.  A formula is a term over the operations alone, so one and
the same formula can be run at machine numbers, where hardly any law of a field holds, read
over an ordered field, or read over numbers with a signed zero.  Laws enter as hypotheses of
the statements that need them.  The order is a pair of decidable relations and not a linear
order: a value that is no number compares with nothing, not even with itself under `==`.
-/

namespace EqualArea

/-- A type of numbers, as far as the formulas of the library use numbers. -/
class Arith (α : Type) extends Add α, Sub α, Mul α, Div α, Neg α, LT α, LE α, BEq α where
  /-- The strict order is decidable. -/
  decidableLT : DecidableLT α
  /-- The order is decidable. -/
  decidableLE : DecidableLE α
  /-- The number closest to a natural number. -/
  ofNat : Nat → α
  /-- The number closest to `m · 10 ^ e`. -/
  ofDecimal : (m : Nat) → (e : Int) → α
  /-- The magnitude. -/
  abs : α → α
  /-- The product of the first two plus the third, with no rounding in between. -/
  mulAdd : α → α → α → α
  /-- One with the sign of the argument; a zero that has a sign passes it on. -/
  signum : α → α
  /-- The remainder of the division truncated toward zero, with the sign of the dividend. -/
  rem : α → α → α
  /-- The square root. -/
  sqrt : α → α
  /-- The power. -/
  pow : α → α → α
  /-- The natural logarithm. -/
  log : α → α
  /-- The sine. -/
  sin : α → α
  /-- The cosine. -/
  cos : α → α
  /-- The arc sine. -/
  asin : α → α
  /-- The inverse hyperbolic tangent. -/
  atanh : α → α
  /-- The angle of the point with the given ordinate and abscissa, in that order. -/
  atan2 : α → α → α
  /-- The length of the hypotenuse over two legs. -/
  hypot : α → α → α
  /-- The half turn, in radians. -/
  pi : α
  /-- The value that is no number. -/
  nan : α
  /-- The value beyond every number. -/
  infinity : α
  /-- Whether the value is a number, and not beyond every number either. -/
  isFinite : α → Bool

namespace Arith

variable {α : Type} [Arith α]

instance : DecidableLT α := Arith.decidableLT

instance : DecidableLE α := Arith.decidableLE

instance (priority := low) instOfNat (n : Nat) : OfNat α n := ⟨Arith.ofNat n⟩

instance (priority := low) instOfScientific : OfScientific α where
  ofScientific m negative e := Arith.ofDecimal m (if negative then -(e : Int) else e)

/-! ## Derived notions -/

/-- Only the value that is no number differs from itself. -/
def isNaN (x : α) : Bool := !(x == x)

/-- The point of the interval from `lo` to `hi` closest to `x`; what is no number stays so. -/
def clamp (lo hi x : α) : α :=
  if x < lo then lo else if hi < x then hi else x

/-- The square. -/
def sq (x : α) : α := x * x

/-- The quarter turn, in radians. -/
def quarterTurn : α := pi / 2

/-- An angle given in degrees, in radians. -/
def radians (degrees : α) : α := degrees * (pi / 180)

/-- An angle given in radians, in degrees. -/
def degrees (radians : α) : α := radians * (180 / pi)

end Arith

end EqualArea
