import EqualArea.Angle
import EqualArea.Coordinate.Transform
import EqualArea.Parameters
import EqualArea.Projection.Ellipsoid
import EqualArea.Projection.Sphere

/-!
# Operators

An operator is a projection together with what lies around it: the size of the ellipsoid and the
scale, the central meridian, and the false origin.  It works on sets of coordinates, in two
directions.

* `Direction`, `Slot`, `Descriptor`, `Operator` — the parts of an operator.
* `Operator.ofParameters`, `Operator.create` — the operator that parameters define, without and
  with a log.
* `Operator.pointMap?` — what the operator does to one coordinate.
* `Operator.apply` — the operator on a set.
* `Operator.teardown` — the operator without its state.

**Design.**  A slot names the mapping a direction runs, and the mapping reads parameters and
projection when it runs, so either may be replaced afterwards.  The point map knows nothing of
sets, and the set is transformed by the one function `CoordinateSet.transform`.
-/

namespace EqualArea

/-- The direction in which an operator runs. -/
inductive Direction where
  /-- To the map. -/
  | forward
  /-- From the map. -/
  | inverse
  deriving DecidableEq

/-- What one direction of an operator runs. -/
inductive Slot (α : Type) where
  /-- Nothing: no coordinate is touched. -/
  | idle
  /-- The mapping of the sphere. -/
  | sphere
  /-- The mapping of the ellipsoid. -/
  | ellipsoid
  /-- A mapping of the user's. -/
  | custom (f : Coordinate α → Except Refusal (Coordinate α))

/-- How the two directions of an operator are connected. -/
structure Descriptor (α : Type) where
  /-- Whether the two directions are swapped. -/
  inverted : Bool
  /-- What runs to the map. -/
  forward : Slot α
  /-- What runs from the map. -/
  inverse : Slot α

/-- The text that shows a descriptor.  What a slot runs is a function and is not shown. -/
def Descriptor.text {α : Type} (d : Descriptor α) : String :=
  "OpDescriptor \x7b inverted: " ++ (if d.inverted then "true" else "false") ++
    ", fwd: InnerOp, inv: InnerOp \x7d"

/-- A projection with its parameters, in two directions. -/
structure Operator (α : Type) where
  /-- The parameters it was made from. -/
  parameters : Parameters α
  /-- The projection proper. -/
  projection : Projection α
  /-- How its directions are connected. -/
  descriptor : Descriptor α

namespace Operator

variable {α : Type}

/-! ## Life -/

/-- The operator without the constants for the ellipsoid, and with nothing connected. -/
def teardown (op : Operator α) : Logged (Operator α) := do
  let projection ← op.projection.teardown
  return { op with
    projection := projection
    descriptor := { op.descriptor with forward := .idle, inverse := .idle } }

variable [Arith α]

/-- The operator with a projection, each direction running the mapping the projection has the
constants for. -/
def ofProjection (p : Parameters α) (projection : Projection α) : Operator α :=
  let slot := if projection.spheroid?.isSome then Slot.ellipsoid else Slot.sphere
  { parameters := p
    projection := projection
    descriptor := { inverted := p.inverted, forward := slot, inverse := slot } }

/-- The operator that parameters define. -/
def ofParameters (p : Parameters α) : Except (Fault α) (Operator α) := do
  p.check
  return ofProjection p (← Projection.centredAt p.latitude p.ellipsoid)

/-- The operator that parameters define, with a log. -/
def create (p : Parameters α) : Attempt α (Operator α) := do
  let op ← Attempt.report (ofParameters p)
  Attempt.write op.projection.record
  return op

/-! ## Points -/

/-- The size of the map: the semimajor axis times the scale. -/
def unit (op : Operator α) : α := op.parameters.ellipsoid.semimajor * op.parameters.scale

/-- A mapping of the unit sphere or ellipsoid to the plane, with the meridian, the size and the
false origin around it. -/
def onMap (op : Operator α) (f : α → α → Except Refusal (Coordinate α)) (c : Coordinate α) :
    Except Refusal (Coordinate α) := do
  let xy ← f (c.first - op.parameters.meridian) c.second
  return ⟨op.unit * xy.first + op.parameters.falseEasting,
    op.unit * xy.second + op.parameters.falseNorthing⟩

/-- A mapping of the plane to the unit sphere or ellipsoid, with the false origin, the size and
the meridian around it. -/
def offMap (op : Operator α) (f : α → α → Except Refusal (Coordinate α)) (c : Coordinate α) :
    Except Refusal (Coordinate α) := do
  let lp ← f ((c.first - op.parameters.falseEasting) / op.unit)
    ((c.second - op.parameters.falseNorthing) / op.unit)
  return ⟨Angle.wrap (lp.first + op.parameters.meridian), lp.second⟩

/-- What the forward slot does to a coordinate, if it is connected. -/
def forwardMap? (op : Operator α) : Option (Coordinate α → Except Refusal (Coordinate α)) :=
  match op.descriptor.forward with
  | .idle => none
  | .sphere => some (op.onMap op.projection.forwardSphere)
  | .ellipsoid => some (op.onMap op.projection.forwardEllipsoid)
  | .custom f => some f

/-- What the inverse slot does to a coordinate, if it is connected. -/
def inverseMap? (op : Operator α) : Option (Coordinate α → Except Refusal (Coordinate α)) :=
  match op.descriptor.inverse with
  | .idle => none
  | .sphere => some (op.offMap op.projection.inverseSphere)
  | .ellipsoid => some (op.offMap op.projection.inverseEllipsoid)
  | .custom f => some f

/-- What the operator does to a coordinate in a direction: that of the slot of the direction, or
of the other slot if the operator is inverted. -/
def pointMap? (op : Operator α) (direction : Direction) :
    Option (Coordinate α → Except Refusal (Coordinate α)) :=
  if op.descriptor.inverted = decide (direction = .forward) then op.inverseMap?
  else op.forwardMap?

/-! ## Sets -/

/-- The number of coordinates that have an image, and the set of the images.  Every coordinate
without an image is logged. -/
def apply {σ : Type} [CoordinateSet σ α] (op : Operator α) (direction : Direction) (s : σ) :
    Logged (Nat × σ) :=
  match op.pointMap? direction with
  | none => pure (0, s)
  | some f =>
    let out := CoordinateSet.transform f s
    ⟨(out.successes, out.set), out.refusals.filterMap Refusal.record?⟩

end Operator

end EqualArea
