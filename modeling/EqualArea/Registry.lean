import EqualArea.Jacobian
import EqualArea.Operator

/-!
# Registries

A registry keeps operators under handles.

* `Handle` — a type of handles.
* `Registry`, `Registry.put` — the operators under their handles.
* `Registry.register` — a new operator under the handle drawn for it.
* `Registry.find`, `Registry.parameters`, `Registry.apply`, `Registry.jacobian` — the use of an
  operator through its handle.
* `Registry.teardown` — the release of an operator's state; its handle stays known.

**Design.**  Handles are drawn outside of the library, and a registry can only compare them and name
them in a message.  It is a finite map: whatever is put under a handle takes the place of what was
there, so that operators do not get in each other's way is owed to handles that differ.  Operators
are never removed, and a registration that fails draws no handle and changes nothing.
-/

namespace EqualArea

/-- A type of handles, what operators are known by in a registry. -/
class Handle (H : Type) where
  /-- Whether two handles are the same. -/
  decEq : DecidableEq H
  /-- The text of a handle in a message. -/
  text : H → String

instance {H : Type} [Handle H] : DecidableEq H := Handle.decEq

/-- The operators that have been registered. -/
structure Registry (H α : Type) where
  /-- The operators, each with its handle. -/
  operators : List (H × Operator α)

namespace Registry

variable {H α : Type} [Handle H]

/-! ## The map -/

/-- The registry without operators. -/
def empty : Registry H α := ⟨[]⟩

/-- The operator under a handle, if there is one. -/
def lookup (r : Registry H α) (h : H) : Option (Operator α) := r.operators.lookup h

/-- The operators with one more under a handle, in the place of the one that was there. -/
def replace (h : H) (op : Operator α) : List (H × Operator α) → List (H × Operator α)
  | [] => [(h, op)]
  | (k, other) :: rest => if h = k then (h, op) :: rest else (k, other) :: replace h op rest

/-- The registry with an operator under a handle. -/
def put (r : Registry H α) (h : H) (op : Operator α) : Registry H α := ⟨replace h op r.operators⟩

private theorem lookup_cons_ite (h k : H) (op : Operator α) (l : List (H × Operator α)) :
    ((h, op) :: l).lookup k = if k = h then some op else l.lookup k := by
  by_cases hk : k = h
  · rw [hk, List.lookup_cons_self, if_pos rfl]
  · rw [List.lookup_cons, beq_false_of_ne hk, if_neg hk]

theorem lookup_replace (h k : H) (op : Operator α) (l : List (H × Operator α)) :
    (replace h op l).lookup k = if k = h then some op else l.lookup k := by
  induction l with
  | nil => rw [replace, lookup_cons_ite]
  | cons entry rest ih => grind [replace, lookup_cons_ite]

/-- A handle has what was put under it last, and the other handles have what they had. -/
theorem lookup_put (r : Registry H α) (h k : H) (op : Operator α) :
    (r.put h op).lookup k = if k = h then some op else r.lookup k :=
  lookup_replace h k op r.operators

/-! ## Requests -/

/-- The operator under a handle, for whoever asks for it. -/
def find (r : Registry H α) (h : H) : Except (Fault α) (Operator α) :=
  match r.lookup h with
  | some op => .ok op
  | none => .error (.unknownOperator (Handle.text h))

theorem find_put_self (r : Registry H α) (h : H) (op : Operator α) :
    (r.put h op).find h = .ok op := by
  simp only [find, lookup_put, if_true]

/-- The parameters of an operator. -/
def parameters (r : Registry H α) (h : H) : Except (Fault α) (Parameters α) := do
  return (← r.find h).parameters

/-- The registry with the state of an operator released.  A second release does nothing. -/
def teardown (r : Registry H α) (h : H) : Attempt α (Registry H α) := do
  let op ← Attempt.report (r.find h)
  let op ← ExceptT.lift op.teardown
  return r.put h op

variable [Arith α]

/-- The registry with the operator that parameters define under the handle drawn for it, and that
handle.  Parameters that define no operator have none drawn for them. -/
def register (r : Registry H α) (drawn : H) (p : Parameters α) : Attempt α (H × Registry H α) := do
  let op ← Operator.create p
  return (drawn, r.put drawn op)

/-- The operator under a handle, applied to a set. -/
def apply {σ : Type} [CoordinateSet σ α] (r : Registry H α) (h : H) (direction : Direction)
    (s : σ) : Attempt α (Nat × σ) := do
  let op ← Attempt.report (r.find h)
  ExceptT.lift (op.apply direction s)

/-- The image of one coordinate under an operator, as the only member of a set. -/
def imageOf (op : Operator α) (c : Coordinate α) : Attempt α (Coordinate α) := do
  let (successes, images) ← ExceptT.lift (op.apply .forward #v[c])
  if successes = 1 then return images[0] else throw .outsideDomain

/-- The derivatives of an operator at a point, given as longitude and latitude. -/
def jacobian (r : Registry H α) (h : H) (point : Coordinate α) :
    Attempt α (Jacobian α) := do
  let op ← Attempt.report (r.find h)
  Jacobian.ofMap (imageOf op) point

end Registry

end EqualArea
