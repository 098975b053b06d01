import EqualArea.Arith
import EqualArea.Binary64.Parts

/-!
# The arithmetic of binary64 numbers

The carrier at which the library is run.  The field operations, the order and the square root
are those of binary64; the elementary functions are the machine's, good to about a unit in the
last place.

**Design.**  The sign of a zero and the value that is no number follow from the operations and
are nowhere tested for, except in `signum`, which passes on the sign of a zero.
-/

namespace EqualArea.Binary64

/-- One with the sign of the number, also of a zero. -/
def signum (x : Float) : Float :=
  if x.isNaN then x else if (parts x).negative then -1 else 1

instance : Arith Float where
  decidableLT := inferInstance
  decidableLE := inferInstance
  ofNat := Float.ofNat
  ofDecimal := ofDecimal
  abs := Float.abs
  mulAdd := mulAdd
  signum := signum
  rem := remainder
  sqrt := Float.sqrt
  pow := Float.pow
  log := Float.log
  sin := Float.sin
  cos := Float.cos
  asin := Float.asin
  atanh := Float.atanh
  atan2 := Float.atan2
  hypot := hypot
  pi := 3.141592653589793
  nan := nan
  infinity := infinity
  isFinite := Float.isFinite

end EqualArea.Binary64
