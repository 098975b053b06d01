import EqualArea.Fault

/-!
# Aspects

The aspect of an azimuthal projection says where its centre lies: at a pole, on the equator, or
between them.

* `Aspect` — the four aspects, and their names.
* `Aspect.ofLatitude` — the aspect of a centre at a latitude.
* `tolerance` — the angle within which two directions are taken for the same.
-/

namespace EqualArea

variable {α : Type} [Arith α]

/-- The angle, and on a map of unit radius the distance, within which a point is taken for a
centre, a pole or an antipode. -/
def tolerance : α := 1e-10

/-- Where the centre of the projection lies. -/
inductive Aspect where
  /-- At the north pole. -/
  | northPolar
  /-- At the south pole. -/
  | southPolar
  /-- On the equator. -/
  | equatorial
  /-- Between the equator and a pole. -/
  | oblique
  deriving DecidableEq

namespace Aspect

/-- The name of an aspect. -/
def name : Aspect → String
  | northPolar => "NorthPolar"
  | southPolar => "SouthPolar"
  | equatorial => "Equatorial"
  | oblique => "Oblique"

/-- The aspect of a projection centred at a latitude.  A latitude past a pole by no more than the
tolerance is still a latitude. -/
def ofLatitude (latitude : α) : Except (Fault α) Aspect :=
  let magnitude := Arith.abs latitude
  if Arith.isNaN latitude ∨ Arith.quarterTurn + tolerance < magnitude then
    .error (.badLatitude latitude)
  else if Arith.abs (magnitude - Arith.quarterTurn) < tolerance then
    .ok (if latitude < 0 then southPolar else northPolar)
  else if magnitude < tolerance then .ok equatorial
  else .ok oblique

end Aspect

end EqualArea
