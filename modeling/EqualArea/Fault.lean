import EqualArea.Ellipsoid.Basic
import EqualArea.Logged

/-!
# Refusals and faults

Two things can go wrong: a point may have no image, which concerns that point only, and a request
may be refused as a whole.

* `Refusal` — why a point has no image, and what the log says of it.
* `Fault` — why a request is refused, its message, and what the log says of it.
* `Attempt` — a computation that may fail with a fault and that keeps a log.

**Design.**  A fault carries the values that are wrong, a name or a handle as the text it is known
by; `Fault.message` words it, with the text of a number as a parameter.  A fault or a refusal
determines the one record that is written for it, if any, so whoever reports one does not choose the
words.
-/

namespace EqualArea

/-! ## Points without an image -/

/-- Why a point has no image. -/
inductive Refusal where
  /-- The point is opposite the centre. -/
  | antipode
  /-- The point is opposite the centre, or past it. -/
  | beyondAntipode
  /-- The point of the map lies outside the image of the sphere. -/
  | offSphere
  /-- The point of the map lies outside the image of the ellipsoid. -/
  | offEllipsoid
  /-- The constants for the ellipsoid have been released. -/
  | released
  deriving DecidableEq

/-- What the log says of a point without an image; where the constants are gone it says
nothing. -/
def Refusal.record? : Refusal → Option Record
  | antipode => some ⟨.trace, "LAEA: antipodal point"⟩
  | beyondAntipode => some ⟨.trace, "LAEA: point at or beyond the antipode"⟩
  | offSphere => some ⟨.trace, "LAEA: point outside the projected sphere"⟩
  | offEllipsoid => some ⟨.trace, "LAEA: point outside the projected ellipsoid"⟩
  | released => none

/-! ## Refused requests -/

/-- Why a request is refused.  Angles are in radians. -/
inductive Fault (α : Type) where
  /-- The latitude of the centre is no number or lies beyond a pole. -/
  | badLatitude (latitude : α)
  /-- The ellipsoid has no positive axis, or its squared eccentricity is not in `[0, 1)`. -/
  | badEllipsoid (ellipsoid : Ellipsoid α)
  /-- The scale at the centre is not positive and finite. -/
  | badScale (scale : α)
  /-- The central meridian or the false origin is not finite. -/
  | badOrigin (meridian falseEasting falseNorthing : α)
  /-- No ellipsoid has this name or description. -/
  | unknownEllipsoid (name : String)
  /-- The registry has no operator under the handle with this text. -/
  | unknownOperator (handle : String)
  /-- The constants for the ellipsoid have been released. -/
  | released
  /-- A point has no image. -/
  | outsideDomain

namespace Fault

variable {α : Type} [Arith α]

/-- The message of a value of a parameter that is refused. -/
def invalid (parameter value : String) : String :=
  "invalid value for parameter " ++ parameter ++ ": " ++ value

/-- The message, with `text` the text of a number; angles are shown in degrees. -/
def message (text : α → String) : Fault α → String
  | badLatitude latitude =>
    invalid "lat_0" (text (Arith.degrees latitude) ++ ": |lat_0| should be <= 90°")
  | badEllipsoid e => invalid "ellps" ("a=" ++ text e.semimajor ++ ", f=" ++ text e.flattening)
  | badScale scale => invalid "k_0" (text scale ++ ": k_0 should be > 0")
  | badOrigin meridian falseEasting falseNorthing =>
    invalid "lon_0/x_0/y_0"
      (text (Arith.degrees meridian) ++ ", " ++ text falseEasting ++ ", " ++ text falseNorthing)
  | unknownEllipsoid name => name ++ " not found: Ellipsoid::named()"
  | unknownOperator handle => handle ++ " not found: Minimal: Unknown operator id"
  | released => "error: LAEA: ellipsoidal state released"
  | outsideDomain => "coordinate outside projection domain"

omit [Arith α] in
/-- What the log says of a refused request: a warning, where its parameters were at fault. -/
def record? : Fault α → Option Record
  | badLatitude _ => some ⟨.warn, "LAEA: Bad central latitude!"⟩
  | badEllipsoid _ => some ⟨.warn, "LAEA: Bad ellipsoid!"⟩
  | badScale _ => some ⟨.warn, "LAEA: Bad scale factor!"⟩
  | badOrigin _ _ _ => some ⟨.warn, "LAEA: Bad false origin or central meridian!"⟩
  | unknownEllipsoid _ | unknownOperator _ | released | outsideDomain => none

end Fault

/-- The fault of a request that asks for the image of one point without an image. -/
def Refusal.fault {α : Type} : Refusal → Fault α
  | released => .released
  | _ => .outsideDomain

/-! ## Computations that may fail -/

/-- A computation that keeps a log and may end in a fault. -/
abbrev Attempt (α β : Type) := ExceptT (Fault α) Logged β

namespace Attempt

variable {α β : Type}

/-- Writes one record. -/
def write (r : Record) : Attempt α Unit := ExceptT.lift (Logged.write r)

/-- A result as it is, or a fault together with its record. -/
def report : Except (Fault α) β → Attempt α β
  | .ok x => pure x
  | .error fault => ExceptT.mk ⟨.error fault, fault.record?.toList⟩

/-- The image of a point, or a fault together with the record of the refusal. -/
def reportPoint : Except Refusal β → Attempt α β
  | .ok x => pure x
  | .error refusal => ExceptT.mk ⟨.error refusal.fault, refusal.record?.toList⟩

end Attempt

end EqualArea
