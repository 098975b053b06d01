import EqualArea.Registry
import Mathlib

/-!
# Sessions with a registry

A registry is asked one thing after the other.

* `Request`, `Answer` — what a registry is asked, and what it answers.
* `session`, `session_rel` — the answers to one request after the other, and what answers alike.
* `Registry.respond`, `Registry.run` — one request to a registry, and a session of them.
* `Request.Distinct` — no handle is drawn twice in a session.
* `Registry.register_value` and its companions — each request in terms of the operator under its
  handle.
* `Operator.apply_teardown`, `Registry.jacobian_teardown` — an operator that has been torn down does
  nothing.

**Design.**  An answer to an application has the operands as they are afterwards, so what a refused
application leaves of them is part of the answer.  A refused request hands back no registry, and the
session goes on with the one it had.
-/

namespace EqualArea

/-- What a registry is asked. -/
inductive Request (H α σ : Type) where
  /-- To keep the operator that parameters define, under a handle drawn for it. -/
  | register (drawn : H) (P : Parameters α)
  /-- To apply an operator to a set. -/
  | apply (h : H) (direction : Direction) (s : σ)
  /-- For the parameters of an operator. -/
  | parameters (h : H)
  /-- To release the state of an operator. -/
  | teardown (h : H)
  /-- For the derivatives of an operator at a point. -/
  | jacobian (h : H) (point : Coordinate α)

/-- What a registry answers. -/
inductive Answer (H α σ : Type) where
  /-- The handle of a new operator. -/
  | registered (h : H)
  /-- The count of an application, unless it was refused, and the set afterwards. -/
  | applied (count : Except (Fault α) ℕ) (s : σ)
  /-- The parameters of an operator. -/
  | parameters (P : Parameters α)
  /-- The state of an operator has been released. -/
  | released
  /-- The derivatives at a point. -/
  | jacobian (j : Jacobian α)
  /-- The request was refused. -/
  | refused (fault : Fault α)

/-! ## Sessions of requests -/

/-- The answers to one request after the other, and the state after the last one. -/
def session {Q A S : Type} (respond : S → Q → A × S) (s : S) : List Q → List A × S
  | [] => ([], s)
  | request :: requests =>
    let (answer, s') := respond s request
    let (answers, last) := session respond s' requests
    (answer :: answers, last)

/-- States that answer alike, and are related again afterwards, answer alike over a session. -/
theorem session_rel {Q A S T : Type} {f : S → Q → A × S} {g : T → Q → A × T} {R : S → T → Prop}
    (step : ∀ {s t}, R s t → ∀ q, (f s q).1 = (g t q).1 ∧ R (f s q).2 (g t q).2)
    {s : S} {t : T} (h : R s t) (requests : List Q) :
    (session f s requests).1 = (session g t requests).1 ∧
      R (session f s requests).2 (session g t requests).2 := by
  induction requests generalizing s t with
  | nil => exact ⟨rfl, h⟩
  | cons request requests ih =>
    obtain ⟨hanswer, hnext⟩ := step h request
    obtain ⟨hanswers, hlast⟩ := ih hnext
    exact ⟨congrArg₂ List.cons hanswer hanswers, hlast⟩

namespace Operator

variable {α : Type}

/-! ## Operators that have been torn down -/

lemma parameters_teardown (op : Operator α) : op.teardown.value.parameters = op.parameters := rfl

/-- A second release does nothing. -/
lemma teardown_teardown (op : Operator α) :
    op.teardown.value.teardown.value = op.teardown.value := by
  have hnone : op.projection.teardown.value.spheroid? = none := by
    unfold Projection.teardown
    cases hp : op.projection.spheroid? with
    | none => exact hp
    | some s => rfl
  have hprojection :
      op.projection.teardown.value.teardown.value = op.projection.teardown.value := by
    rw [Projection.teardown, hnone]
  simp only [teardown, Logged.value_bind, Logged.value_pure, hprojection]

variable [Arith α]

/-- Nothing is connected in either direction. -/
lemma pointMap?_teardown (op : Operator α) (direction : Direction) :
    op.teardown.value.pointMap? direction = none := by
  unfold pointMap?
  split_ifs <;> rfl

/-- **An operator that has been torn down counts nothing and touches nothing.** -/
theorem apply_teardown {σ : Type} [CoordinateSet σ α] (op : Operator α) (direction : Direction)
    (s : σ) : op.teardown.value.apply direction s = pure (0, s) := by
  rw [apply, pointMap?_teardown]

end Operator

namespace Registry

variable {α : Type} [Arith α]

/-- No point has an image any more. -/
lemma imageOf_teardown (op : Operator α) (c : Coordinate α) :
    (imageOf op.teardown.value c).run.value = .error .outsideDomain := by
  unfold imageOf
  rw [Operator.apply_teardown]
  rfl

/-- Without their logs, derivatives are those of the map without its log. -/
lemma jacobian_ofMap_value (f : Coordinate α → Attempt α (Coordinate α)) (point : Coordinate α) :
    (Jacobian.ofMap f point).run.value = Jacobian.ofMap (fun c => (f c).run.value) point := by
  have hbind {β γ : Type} (x : Attempt α β) (g : β → Attempt α γ) :
      (x >>= g).run.value = x.run.value >>= fun b => (g b).run.value := by
    rw [ExceptT.run_bind, Logged.value_bind]
    cases x.run.value <;> rfl
  simp only [Jacobian.ofMap, Jacobian.estimate, hbind]
  rfl

/-- **An operator that has been torn down has no derivatives.** -/
theorem jacobian_teardown (op : Operator α) (point : Coordinate α) :
    (Jacobian.ofMap (imageOf op.teardown.value) point).run.value = .error .outsideDomain := by
  rw [jacobian_ofMap_value, funext (imageOf_teardown op)]
  rfl

/-! ## What the requests come to -/

variable {H : Type} [Handle H] (r : Registry H α) (h : H)

lemma register_value (P : Parameters α) :
    (r.register h P).run.value =
      (Operator.ofParameters P).map fun op => (h, r.put h op) := by
  unfold register Operator.create
  cases Operator.ofParameters P <;> rfl

omit [Arith α] in
lemma parameters_eq : r.parameters h = (r.find h).map Operator.parameters := by
  unfold parameters
  cases r.find h <;> rfl

omit [Arith α] in
lemma teardown_value :
    (r.teardown h).run.value = (r.find h).map fun op => r.put h op.teardown.value := by
  unfold teardown
  cases r.find h <;> rfl

lemma apply_value {σ : Type} [CoordinateSet σ α] (direction : Direction) (s : σ) :
    (r.apply h direction s).run.value =
      (r.find h).map fun op => (op.apply direction s).value := by
  unfold apply
  cases r.find h <;> rfl

lemma jacobian_value (point : Coordinate α) :
    (r.jacobian h point).run.value =
      (r.find h).bind fun op => (Jacobian.ofMap (imageOf op) point).run.value := by
  unfold jacobian
  cases r.find h <;> rfl

/-! ## Sessions -/

variable {σ : Type} [CoordinateSet σ α]

/-- The answer to a request, and the registry afterwards. -/
def respond (r : Registry H α) : Request H α σ → Answer H α σ × Registry H α
  | .register drawn P =>
    match (r.register drawn P).run.value with
    | .ok (h, r') => (.registered h, r')
    | .error fault => (.refused fault, r)
  | .apply h direction s =>
    match (r.apply h direction s).run.value with
    | .ok (count, t) => (.applied (.ok count) t, r)
    | .error fault => (.applied (.error fault) s, r)
  | .parameters h =>
    match r.parameters h with
    | .ok P => (.parameters P, r)
    | .error fault => (.refused fault, r)
  | .teardown h =>
    match (r.teardown h).run.value with
    | .ok r' => (.released, r')
    | .error fault => (.refused fault, r)
  | .jacobian h point =>
    match (r.jacobian h point).run.value with
    | .ok j => (.jacobian j, r)
    | .error fault => (.refused fault, r)

/-- The answers to the requests of a session, and the registry at its end. -/
def run : Registry H α → List (Request H α σ) → List (Answer H α σ) × Registry H α :=
  session respond

end Registry

/-! ## Handles -/

/-- Texts of the given lengths, cut off one after the other. -/
def cut : List ℕ → List Char → List String
  | [], _ => []
  | n :: lengths, text => String.ofList (text.take n) :: cut lengths (text.drop n)

/-- Handles of 128 bits, written as five groups of hexadecimal digits. -/
instance : Handle (BitVec 128) where
  decEq := inferInstance
  text h := "OpHandle(" ++ "-".intercalate (cut [8, 4, 4, 4, 12] h.toHex.toList) ++ ")"

namespace Request

variable {H α σ : Type} [Arith α]

/-- The handle that is drawn for a request: parameters that define no operator have none drawn. -/
def drawn? : Request H α σ → Option H
  | .register drawn P => if (Operator.ofParameters P).isOk then some drawn else none
  | _ => none

/-- No handle is drawn twice in a session. -/
def Distinct (requests : List (Request H α σ)) : Prop := (requests.filterMap drawn?).Nodup

end Request

end EqualArea
