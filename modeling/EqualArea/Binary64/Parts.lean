/-!
# The parts of a binary64 number

A finite binary64 number is a sign and a magnitude `mantissa · 2 ^ exponent`.  Text and the
remainder of a division are exact, so both work on the parts and not on the number.

* `Binary64.Parts`, `Binary64.parts` — the sign, the mantissa and the exponent.
* `Binary64.Parts.magnitude` — the magnitude as a rational number.
* `Binary64.Parts.below`, `Binary64.Parts.above` — the ends of the interval of rationals that
  round to the magnitude, which belong to it exactly when the mantissa is even.
* `Binary64.remainder`, `Binary64.mulAdd`, `Binary64.hypot`, `Binary64.ofDecimal` — operations that
  binary64 arithmetic has and its basic operations do not give.

**Design.**  The mantissa is a natural number and the exponent an integer, and no pair is
normalised beyond what the encoding does: a number below the least normal one has the least
exponent and a short mantissa.  The gap below a power of two is half the gap above it, which is
why the lower end of the interval looks at the mantissa.
-/

namespace EqualArea.Binary64

/-- The value that is no number. -/
def nan : Float := 0 / 0

/-- The value above every number. -/
def infinity : Float := 1 / 0

/-- The mantissa of a power of two: the least one of full length. -/
def leastFull : Nat := 0x10000000000000

/-- Sign and magnitude of a finite number. -/
structure Parts where
  /-- Whether the sign is minus; a zero has a sign too. -/
  negative : Bool
  /-- The factor of the power of two, below `2 ^ 53`. -/
  mantissa : Nat
  /-- The exponent of the power of two, at least `-1074`. -/
  exponent : Int

/-- The parts of a finite number. -/
def parts (x : Float) : Parts :=
  let bits := x.toBits.toNat
  let biased := bits / leastFull % 0x800
  let fraction := bits % leastFull
  { negative := 0x800 ≤ bits / leastFull
    mantissa := if biased = 0 then fraction else fraction + leastFull
    exponent := (max biased 1 : Nat) - 1075 }

namespace Parts

/-- A mantissa at a binary exponent. -/
def scale (mantissa : Rat) (exponent : Int) : Rat := mantissa * (2 : Rat) ^ exponent

/-- The magnitude, exactly. -/
def magnitude (p : Parts) : Rat := scale p.mantissa p.exponent

/-- The lower end of the interval that rounds to the magnitude: half a unit below it, and a
quarter below a power of two, where the numbers are twice as dense. -/
def below (p : Parts) : Rat :=
  if p.mantissa = leastFull ∧ -1074 < p.exponent then
    scale (p.mantissa - 1 / 4) p.exponent
  else
    scale (p.mantissa - 1 / 2) p.exponent

/-- The upper end of the interval that rounds to the magnitude. -/
def above (p : Parts) : Rat := scale (p.mantissa + 1 / 2) p.exponent

/-- Whether a rational rounds to the magnitude. -/
def Rounds (p : Parts) (r : Rat) : Prop :=
  if p.mantissa % 2 = 0 then p.below ≤ r ∧ r ≤ p.above else p.below < r ∧ r < p.above

instance (p : Parts) (r : Rat) : Decidable (p.Rounds r) := by
  unfold Rounds
  infer_instance

end Parts

/-! ## Operations -/

/-- The remainder of the division truncated toward zero.  It is exact: both magnitudes are
multiples of the smaller power of two, and the remainder of the mantissas over it is below one
of the two mantissas.  A zero remainder keeps the sign of the dividend. -/
def remainder (x y : Float) : Float :=
  if x.isNaN || y.isNaN || x.isInf || y == 0 then nan
  else if y.isInf then x
  else
    let a := parts x
    let b := parts y
    let unit := min a.exponent b.exponent
    let rest := (a.mantissa <<< (a.exponent - unit).toNat) %
      (b.mantissa <<< (b.exponent - unit).toNat)
    let magnitude := (Float.ofNat rest).scaleB unit
    if a.negative then -magnitude else magnitude

open Float.Model (UnpackedFloat) in
/-- A product of two numbers plus a third, between numbers taken apart.  The product of two
mantissas is exact, so only the sum rounds it.  A zero adds nothing to a product that is not zero,
not even the sign when the product is too small for a number. -/
def mulAddUnpacked (x y z : UnpackedFloat) : UnpackedFloat :=
  match x, y, z with
  | .finite s m e hm, .finite t n f hn, .finite .. =>
    .add .binary64 (.finite (s * t) (m * n) (e + f) (Nat.mul_pos hm hn)) z
  | .finite .., .finite .., .zero _ => .mul .binary64 x y
  | _, _, _ => .add .binary64 (.mul .binary64 x y) z

/-- The product of two numbers plus a third, rounded once. -/
def mulAdd (x y z : Float) : Float :=
  .ofModel (.pack (mulAddUnpacked x.toModel.unpack y.toModel.unpack z.toModel.unpack))

/-- The length of the hypotenuse, with both legs scaled by the power of two of the longer one,
so that no square leaves the range.  An infinite leg wins over a leg that is no number. -/
def hypot (x y : Float) : Float :=
  if x.isInf || y.isInf then infinity
  else if x.isNaN || y.isNaN then nan
  else
    let longer := if x.abs < y.abs then y.abs else x.abs
    if longer == 0 then 0
    else
      let (_, exponent) := longer.frExp
      let u := x.scaleB (-exponent)
      let v := y.scaleB (-exponent)
      (u * u + v * v).sqrt.scaleB exponent

/-- The number closest to `m · 10 ^ e`.  Values that are certainly out of range are settled by
the count of digits alone, so that no power of ten with a huge exponent is ever formed. -/
def ofDecimal (m : Nat) (e : Int) : Float :=
  if m = 0 then 0
  else
    let top := ((Nat.toDigits 10 m).length : Int) + e
    if 310 < top then infinity
    else if top < -330 then 0
    else match e with
      | .ofNat k => Float.ofScientific m false k
      | .negSucc k => Float.ofScientific m true (k + 1)

end EqualArea.Binary64
