import EqualArea.Arith

/-!
# Angles

Angles are in radians.

* `Angle.wrap` — the same direction, as an angle of the turn centred at zero.

**Design.**  The remainder is the truncated one, so its sign is that of the shifted angle, and
the half turn goes back on the side of that sign.
-/

namespace EqualArea.Angle

variable {α : Type} [Arith α]

/-- The angle of the same direction between minus a half turn and a half turn. -/
def wrap (angle : α) : α :=
  let rest := Arith.rem (angle + Arith.pi) (2 * Arith.pi)
  rest - Arith.pi * Arith.signum rest

end EqualArea.Angle
