import EqualArea.Decimal.Literal
import EqualArea.Fault
import EqualArea.Text.Blank

/-!
# Ellipsoids by name

An ellipsoid is found by the name of one of the built-in ones, or is described by its semimajor
axis and its reciprocal flattening, separated by a comma and possibly enclosed in parentheses.

* `Ellipsoid.builtIn`, `Ellipsoid.grs80` — the built-in ellipsoids.
* `Ellipsoid.unwrapped`, `Ellipsoid.halves?`, `Ellipsoid.described?` — the steps by which a
  description is read.
* `Ellipsoid.named` — the ellipsoid of a name or a description.

**Design.**  A name is looked up as it stands, before anything is taken off; only a description
may be enclosed.  The fault carries what was left after the parentheses, which is also what was
read.
-/

namespace EqualArea.Ellipsoid

variable {α : Type} [Arith α]

/-- The built-in ellipsoids: name, semimajor axis, reciprocal flattening. -/
def builtIn : List (String × α × α) :=
  [("GRS80", 6378137.0, 298.2572221008827),
    ("WGS84", 6378137.0, 298.257223563),
    ("intl", 6378388.0, 297.0),
    ("bessel", 6377397.155, 299.1528128),
    ("clrk66", 6378206.4, 294.9786982),
    ("airy", 6377563.396, 299.3249646),
    ("sphere", 6370997.0, 0.0),
    ("unitsphere", 1.0, 0.0)]

/-- The ellipsoid that is meant where none is named. -/
def grs80 : Ellipsoid α := ofReciprocal 6378137.0 298.2572221008827

/-- The built-in ellipsoid of a name. -/
def builtIn? (name : String) : Option (Ellipsoid α) :=
  (builtIn.find? fun entry => entry.1 == name).map fun entry => ofReciprocal entry.2.1 entry.2.2

/-! ## Descriptions -/

/-- The text without one pair of enclosing parentheses; one that stands alone stays. -/
def unwrapped : List Char → List Char
  | '(' :: rest => if rest.getLast? = some ')' then rest.dropLast else '(' :: rest
  | text => text

/-- The texts before and after a comma, if there is exactly one. -/
def halves? (text : List Char) : Option (List Char × List Char) :=
  match text.span (· != ',') with
  | (_, []) => none
  | (first, _ :: second) => if second.contains ',' then none else some (first, second)

/-- The number a text consists of, with blanks around it. -/
def number? (text : List Char) : Option α :=
  (Decimal.Literal.read? (Text.trim text)).map Decimal.Literal.value

/-- The ellipsoid of a semimajor axis and a reciprocal flattening. -/
def described? (text : List Char) : Option (Ellipsoid α) := do
  let (first, second) ← halves? text
  return ofReciprocal (← number? first) (← number? second)

/-- The ellipsoid of a name or a description. -/
def named (name : String) : Except (Fault α) (Ellipsoid α) :=
  match builtIn? name with
  | some e => .ok e
  | none =>
    let text := unwrapped name.toList
    match described? text with
    | some e => .ok e
    | none => .error (.unknownEllipsoid (String.ofList text))

end EqualArea.Ellipsoid
