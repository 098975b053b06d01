import EqualArea.Ellipsoid.Named

/-!
# Parameters of an operator

What defines an operator: the ellipsoid, the centre of the projection, the scale there, and the
coordinates the centre gets on the map.

* `Parameters` — the values, with the defaults of a projection centred at the origin; two of them
  compare equal when all their values do.
* `atLatitude`, `atMeridian`, `invert` — changes, with angles given in degrees.
* `check` — the conditions on them that are not the projection's own.
-/

namespace EqualArea

/-- The parameters of an operator, with angles in radians. -/
structure Parameters (α : Type) where
  /-- The ellipsoid. -/
  ellipsoid : Ellipsoid α
  /-- The latitude of the centre. -/
  latitude : α
  /-- The longitude of the centre. -/
  meridian : α
  /-- The easting of the centre. -/
  falseEasting : α
  /-- The northing of the centre. -/
  falseNorthing : α
  /-- The scale at the centre. -/
  scale : α
  /-- Whether the two directions of the operator are swapped. -/
  inverted : Bool

namespace Parameters

variable {α : Type} [Arith α]

instance : BEq (Parameters α) where
  beq p q :=
    p.ellipsoid == q.ellipsoid && p.latitude == q.latitude && p.meridian == q.meridian &&
      p.falseEasting == q.falseEasting && p.falseNorthing == q.falseNorthing &&
      p.scale == q.scale && p.inverted == q.inverted

/-- The projection of the standard ellipsoid at its true size, centred at the origin. -/
def initial : Parameters α where
  ellipsoid := Ellipsoid.grs80
  latitude := 0
  meridian := 0
  falseEasting := 0
  falseNorthing := 0
  scale := 1
  inverted := false

/-- The centre moved to a latitude in degrees. -/
def atLatitude (p : Parameters α) (degrees : α) : Parameters α :=
  { p with latitude := Arith.radians degrees }

/-- The centre moved to a longitude in degrees. -/
def atMeridian (p : Parameters α) (degrees : α) : Parameters α :=
  { p with meridian := Arith.radians degrees }

omit [Arith α] in
/-- The two directions swapped. -/
def invert (p : Parameters α) : Parameters α := { p with inverted := !p.inverted }

/-! ## Conditions -/

/-- The conditions on the ellipsoid, the scale, the meridian and the false origin, in this order.
What is no number meets none of them. -/
def check (p : Parameters α) : Except (Fault α) Unit :=
  let es := p.ellipsoid.eccentricitySq
  if ¬(0 < p.ellipsoid.semimajor ∧ 0 ≤ es ∧ es < 1) then .error (.badEllipsoid p.ellipsoid)
  else if ¬(0 < p.scale ∧ Arith.isFinite p.scale) then .error (.badScale p.scale)
  else if Arith.isFinite p.meridian && Arith.isFinite p.falseEasting &&
      Arith.isFinite p.falseNorthing then .ok ()
  else .error (.badOrigin p.meridian p.falseEasting p.falseNorthing)

end Parameters

end EqualArea
