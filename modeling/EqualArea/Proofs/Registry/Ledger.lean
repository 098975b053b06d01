import EqualArea.Proofs.NaN.Arith
import EqualArea.Proofs.Operator.Created
import EqualArea.Proofs.Registry.Session

/-!
# A registry is a ledger of parameters

Whatever a registry is asked, and in whatever order, it answers like a table of handles with the
parameters of each and a mark whether it has been released.

* `Parameters.beq_self_of_ofParameters` — parameters that define an operator hold nothing that is no
  number.
* `Entry`, `Ledger`, `Ledger.respond`, `Ledger.run` — the table, and what it answers.
* `Registry.Represents`, `Represents.respond` — the registry a ledger stands for, kept by every
  request.
* `Ledger.run_entry`, `Ledger.run_registered` — what becomes of one entry over a session.
* `Registry.run_ledger` — every session that starts with an empty registry.

**Design.**  An entry carries the operator of its parameters with the proof that it is that
operator, so a ledger has no entry for parameters that define none, and its answers never depend on
what was asked before except through the mark.  Registry and ledger answer alike whatever handles
are drawn; that an entry outlives later registrations needs handles that are drawn once, and nothing
else does.
-/

namespace EqualArea

variable {α : Type} [Arith α]

/-! ## Parameters of an operator are numbers -/

/-- A latitude that has an aspect is a number. -/
lemma Aspect.isNaN_of_ofLatitude {latitude : α} {aspect : Aspect}
    (h : Aspect.ofLatitude latitude = .ok aspect) : Arith.isNaN latitude = false := by
  simp only [Aspect.ofLatitude] at h
  split_ifs at h with hbad
  all_goals exact Bool.eq_false_iff.mpr fun hnan => hbad (.inl hnan)

/-- **Parameters that define an operator compare equal to themselves**: none of their values is the
one that is no number. -/
theorem Parameters.beq_self_of_ofParameters [LawfulNaN α] {P : Parameters α} {op : Operator α}
    (h : Operator.ofParameters P = .ok op) : (P == P) = true := by
  obtain ⟨hcheck, p, hp, -⟩ := Operator.ofParameters_eq_ok.mp h
  simp only [Parameters.check] at hcheck
  split_ifs at hcheck with hellipsoid hscale horigin
  obtain ⟨hsemimajor, hnonneg, -⟩ := hellipsoid
  -- The flattening is not tested itself, but it is a factor of the squared eccentricity, which is.
  have hflattening : Arith.isNaN P.ellipsoid.flattening = false :=
    LawfulNaN.eq_false_of_mul (LawfulNaN.eq_false_of_le hnonneg).2
  have hlatitude : Arith.isNaN P.latitude = false := by
    unfold Projection.centredAt at hp
    cases haspect : Aspect.ofLatitude P.latitude with
    | error fault =>
      rw [haspect] at hp
      cases hp
    | ok aspect => exact Aspect.isNaN_of_ofLatitude haspect
  rw [Bool.and_eq_true, Bool.and_eq_true] at horigin
  obtain ⟨⟨hmeridian, heasting⟩, hnorthing⟩ := horigin
  have hsemimajor := (LawfulNaN.eq_false_of_lt hsemimajor).2
  have hscale := (LawfulNaN.eq_false_of_lt hscale.1).2
  change ((((((P.ellipsoid.semimajor == P.ellipsoid.semimajor &&
    P.ellipsoid.flattening == P.ellipsoid.flattening) && P.latitude == P.latitude) &&
    P.meridian == P.meridian) && P.falseEasting == P.falseEasting) &&
    P.falseNorthing == P.falseNorthing) && P.scale == P.scale && P.inverted == P.inverted) = true
  simp only [Bool.and_eq_true, LawfulNaN.beq_self_iff, beq_self_eq_true, and_true]
  exact ⟨⟨⟨⟨⟨⟨hsemimajor, hflattening⟩, hlatitude⟩, LawfulNaN.eq_false_of_isFinite hmeridian⟩,
    LawfulNaN.eq_false_of_isFinite heasting⟩, LawfulNaN.eq_false_of_isFinite hnorthing⟩, hscale⟩

/-! ## Ledgers -/

/-- What a ledger knows of an operator. -/
structure Entry (α : Type) [Arith α] where
  /-- The parameters it was created from. -/
  parameters : Parameters α
  /-- The operator they define. -/
  operator : Operator α
  /-- It is the one they define. -/
  made : Operator.ofParameters parameters = .ok operator
  /-- Whether its state has not been released. -/
  live : Bool

namespace Entry

/-- The entry with its state released. -/
def release (e : Entry α) : Entry α := { e with live := false }

/-- The count of an application, and the set afterwards: a live entry is the operator of its
parameters, and one that has been released counts nothing and leaves the set alone. -/
def apply {σ : Type} [CoordinateSet σ α] (e : Entry α) (direction : Direction) (s : σ) : ℕ × σ :=
  if e.live then (e.operator.apply direction s).value else (0, s)

/-- The derivatives at a point, of which an entry that has been released has none. -/
def jacobian (e : Entry α) (point : Coordinate α) : Except (Fault α) (Jacobian α) :=
  if e.live then (Jacobian.ofMap (Registry.imageOf e.operator) point).run.value
  else .error .outsideDomain

end Entry

variable {H : Type} [Handle H]

/-- A table of operators by handle. -/
structure Ledger (H α : Type) [Arith α] where
  /-- The entry under a handle. -/
  lookup : H → Option (Entry α)

namespace Ledger

/-- The ledger without entries. -/
def empty : Ledger H α := ⟨fun _ => none⟩

/-- The ledger with an entry under a handle. -/
def put (L : Ledger H α) (h : H) (e : Entry α) : Ledger H α :=
  ⟨Function.update L.lookup h (some e)⟩

@[simp] lemma put_self (L : Ledger H α) (h : H) (e : Entry α) :
    (L.put h e).lookup h = some e := by
  exact Function.update_self h (some e) L.lookup

/-- An entry is nobody else's. -/
@[simp] lemma put_of_ne (L : Ledger H α) {h k : H} (hk : k ≠ h) (e : Entry α) :
    (L.put h e).lookup k = L.lookup k := by
  exact Function.update_of_ne hk (some e) L.lookup

variable {σ : Type} [CoordinateSet σ α]

/-- The fault of a request under a handle without an entry. -/
def unknown (h : H) : Fault α := .unknownOperator (Handle.text h)

/-- The answer of a ledger to a request, and the ledger afterwards. -/
def respond (L : Ledger H α) : Request H α σ → Answer H α σ × Ledger H α
  | .register drawn P =>
    match made : Operator.ofParameters P with
    | .ok op => (.registered drawn, L.put drawn ⟨P, op, made, true⟩)
    | .error fault => (.refused fault, L)
  | .apply h direction s =>
    match L.lookup h with
    | none => (.applied (.error (unknown h)) s, L)
    | some e => (.applied (.ok (e.apply direction s).1) (e.apply direction s).2, L)
  | .parameters h =>
    match L.lookup h with
    | none => (.refused (unknown h), L)
    | some e => (.parameters e.parameters, L)
  | .teardown h =>
    match L.lookup h with
    | none => (.refused (unknown h), L)
    | some e => (.released, L.put h e.release)
  | .jacobian h point =>
    match L.lookup h with
    | none => (.refused (unknown h), L)
    | some e =>
      match e.jacobian point with
      | .ok j => (.jacobian j, L)
      | .error fault => (.refused fault, L)

/-- The answers to the requests of a session, and the ledger at its end. -/
def run : Ledger H α → List (Request H α σ) → List (Answer H α σ) × Ledger H α :=
  session respond

lemma run_cons (L : Ledger H α) (request : Request H α σ) (requests : List (Request H α σ)) :
    L.run (request :: requests) =
      ((L.respond request).1 :: ((L.respond request).2.run requests).1,
        ((L.respond request).2.run requests).2) := rfl

section

variable (L : Ledger H α) (drawn : H) {P : Parameters α}

lemma respond_register_ok {op : Operator α} (made : Operator.ofParameters P = .ok op) :
    L.respond (.register drawn P : Request H α σ) =
      (.registered drawn, L.put drawn ⟨P, op, made, true⟩) := by
  simp only [respond]
  split
  next op' made' =>
    obtain rfl : op = op' := Except.ok.inj (made.symm.trans made')
    rfl
  next fault made' =>
    rw [made] at made'
    cases made'

lemma respond_register_error {fault : Fault α} (h : Operator.ofParameters P = .error fault) :
    L.respond (.register drawn P : Request H α σ) = (.refused fault, L) := by
  simp only [respond]
  split
  next op made =>
    rw [h] at made
    cases made
  next fault' h' =>
    obtain rfl : fault = fault' := Except.error.inj (h.symm.trans h')
    rfl

end

end Ledger

/-! ## The ledger of a registry -/

namespace Entry

/-- The operator as it is kept. -/
def state (e : Entry α) : Operator α := if e.live then e.operator else e.operator.teardown.value

lemma state_of_live {e : Entry α} (he : e.live = true) : e.state = e.operator := if_pos he

lemma state_of_not_live {e : Entry α} (he : e.live = false) :
    e.state = e.operator.teardown.value := by
  rw [state, he]
  rfl

lemma parameters_state (e : Entry α) : e.state.parameters = e.parameters := by
  obtain ⟨-, p, -, hop⟩ := Operator.ofParameters_eq_ok.mp e.made
  have hoperator : e.operator.parameters = e.parameters := by
    rw [hop]
    rfl
  cases he : e.live with
  | true => rw [state_of_live he, hoperator]
  | false => rw [state_of_not_live he, Operator.parameters_teardown, hoperator]

/-- Released once or again, it is in the same state. -/
lemma teardown_state (e : Entry α) : e.state.teardown.value = e.release.state := by
  rw [state_of_not_live (show e.release.live = false from rfl)]
  cases he : e.live with
  | true => rw [state_of_live he, release]
  | false => rw [state_of_not_live he, Operator.teardown_teardown, release]

lemma apply_state {σ : Type} [CoordinateSet σ α] (e : Entry α) (direction : Direction) (s : σ) :
    (e.state.apply direction s).value = e.apply direction s := by
  cases he : e.live with
  | true => rw [state_of_live he, apply, if_pos he]
  | false =>
    rw [state_of_not_live he, Operator.apply_teardown, apply, if_neg (Bool.not_eq_true _ ▸ he)]
    rfl

lemma jacobian_state (e : Entry α) (point : Coordinate α) :
    (Jacobian.ofMap (Registry.imageOf e.state) point).run.value = e.jacobian point := by
  cases he : e.live with
  | true => rw [state_of_live he, jacobian, if_pos he]
  | false =>
    rw [state_of_not_live he, Registry.jacobian_teardown, jacobian,
      if_neg (Bool.not_eq_true _ ▸ he)]

end Entry

namespace Registry

/-- A registry keeps under each handle what the ledger says, and nothing under the others. -/
def Represents (r : Registry H α) (L : Ledger H α) : Prop :=
  ∀ h : H, r.lookup h = (L.lookup h).map Entry.state

variable {r : Registry H α} {L : Ledger H α}

lemma represents_empty : (empty : Registry H α).Represents Ledger.empty := fun _ => rfl

lemma Represents.find (hr : r.Represents L) (h : H) :
    r.find h = match L.lookup h with
      | none => .error (Ledger.unknown h)
      | some e => .ok e.state := by
  unfold Registry.find
  rw [hr h]
  cases L.lookup h <;> rfl

/-- An operator put under a handle changes the entry under it and no other. -/
lemma Represents.put (hr : r.Represents L) (h : H) (e : Entry α) :
    (r.put h e.state).Represents (L.put h e) := by
  intro k
  rw [lookup_put]
  by_cases hk : k = h
  · rw [if_pos hk, hk, Ledger.put_self, Option.map_some]
  · rw [if_neg hk, Ledger.put_of_ne _ hk, hr k]

variable {σ : Type} [CoordinateSet σ α]

/-- One request, answered by a registry as by its ledger, and afterwards the one is still the ledger
of the other. -/
theorem Represents.respond (hr : r.Represents L) (request : Request H α σ) :
    (r.respond request).1 = (L.respond request).1 ∧
      (r.respond request).2.Represents (L.respond request).2 := by
  -- Only registration and release change the tables, and both by `put`.
  cases request with
  | register drawn P =>
    simp only [Registry.respond, register_value]
    cases made : Operator.ofParameters P with
    | ok op =>
      rw [Ledger.respond_register_ok _ _ made]
      exact ⟨rfl, hr.put drawn ⟨P, op, made, true⟩⟩
    | error fault =>
      rw [Ledger.respond_register_error _ _ made]
      exact ⟨rfl, hr⟩
  | apply h direction s =>
    simp only [Registry.respond, Ledger.respond, apply_value, hr.find]
    cases hL : L.lookup h with
    | none => exact ⟨rfl, hr⟩
    | some e =>
      simp only [Except.map, e.apply_state]
      exact ⟨trivial, hr⟩
  | parameters h =>
    simp only [Registry.respond, Ledger.respond, parameters_eq, hr.find]
    cases hL : L.lookup h with
    | none => exact ⟨rfl, hr⟩
    | some e =>
      simp only [Except.map, e.parameters_state]
      exact ⟨trivial, hr⟩
  | teardown h =>
    simp only [Registry.respond, Ledger.respond, teardown_value, hr.find]
    cases hL : L.lookup h with
    | none => exact ⟨rfl, hr⟩
    | some e =>
      simp only [Except.map, e.teardown_state]
      exact ⟨trivial, hr.put h e.release⟩
  | jacobian h point =>
    simp only [Registry.respond, Ledger.respond, jacobian_value, hr.find]
    cases hL : L.lookup h with
    | none => exact ⟨rfl, hr⟩
    | some e =>
      simp only [Except.bind, e.jacobian_state]
      cases e.jacobian point <;> exact ⟨rfl, hr⟩

/-- A session with a registry is a session with its ledger. -/
theorem Represents.run (hr : r.Represents L) (requests : List (Request H α σ)) :
    (r.run requests).1 = (L.run requests).1 ∧
      (r.run requests).2.Represents (L.run requests).2 :=
  session_rel (fun hr => hr.respond) hr requests

end Registry

/-! ## One entry over a session -/

/-- Whether a request asks to release the operator under a handle. -/
def Request.releases {σ : Type} (h : H) : Request H α σ → Bool
  | .teardown k => decide (k = h)
  | _ => false

namespace Ledger

variable {σ : Type} [CoordinateSet σ α] {L : Ledger H α} {h : H} {e : Entry α}

/-- A request for which the handle of an entry is not drawn leaves the entry alone but for the mark,
if it asks for its release. -/
lemma respond_entry {request : Request H α σ} (hdrawn : request.drawn? ≠ some h)
    (he : L.lookup h = some e) :
    (L.respond request).2.lookup h =
      some { e with live := e.live && !request.releases h } := by
  have hkept : L.lookup h = some { e with live := e.live && !false } := by simpa using he
  -- Nothing but a registration under the same handle replaces the parameters, and the handle is not
  -- drawn again.
  cases request with
  | register drawn P =>
    cases made : Operator.ofParameters P with
    | ok op =>
      have hne : h ≠ drawn := by
        rintro rfl
        exact hdrawn (by simp [Request.drawn?, made, Except.isOk, Except.toBool])
      rw [respond_register_ok _ _ made, put_of_ne _ hne]
      exact hkept
    | error fault =>
      rw [respond_register_error _ _ made]
      exact hkept
  | apply k direction s =>
    simp only [respond, Request.releases]
    cases L.lookup k with
    | none => exact hkept
    | some d => exact hkept
  | parameters k =>
    simp only [respond, Request.releases]
    cases L.lookup k <;> exact hkept
  | teardown k =>
    simp only [respond, Request.releases]
    by_cases hk : k = h
    · rw [hk, he]
      simp [Entry.release]
    · rw [decide_eq_false hk]
      cases L.lookup k with
      | none => exact hkept
      | some d => exact (put_of_ne L (Ne.symm hk) _).trans hkept
  | jacobian k point =>
    simp only [respond, Request.releases]
    cases L.lookup k with
    | none => exact hkept
    | some d =>
      simp only
      cases d.jacobian point <;> exact hkept

/-- Over a session in which its handle is not drawn again, an entry keeps its parameters and its
operator, and it is live as long as nobody asks to release it. -/
theorem run_entry {requests : List (Request H α σ)}
    (hdrawn : h ∉ requests.filterMap Request.drawn?) (he : L.lookup h = some e) :
    (L.run requests).2.lookup h =
      some { e with live := e.live && !requests.any (Request.releases h) } := by
  -- The mark of the entry changes on the way, so the entry is generalised with the ledger.
  induction requests generalizing L e with
  | nil => exact he.trans (by simp)
  | cons request requests ih =>
    have hfirst : request.drawn? ≠ some h := fun hsome =>
      hdrawn (List.mem_filterMap.mpr ⟨request, List.mem_cons_self, hsome⟩)
    have hrest : h ∉ requests.filterMap Request.drawn? := fun hmem => by
      obtain ⟨other, hother, hsome⟩ := List.mem_filterMap.mp hmem
      exact hdrawn (List.mem_filterMap.mpr ⟨other, List.mem_cons_of_mem _ hother, hsome⟩)
    rw [run_cons, ih hrest (respond_entry hfirst he)]
    simp [Bool.and_assoc]

/-- An operator that was given a handle of its own is found under it ever after, with the parameters
it was created from. -/
theorem run_registered {before after : List (Request H α σ)} {P : Parameters α}
    (hdistinct : Request.Distinct (before ++ .register h P :: after))
    (hanswer : (L.run (before ++ .register h P :: after)).1[before.length]? =
      some (.registered h)) :
    ∃ e, (L.run (before ++ .register h P :: after)).2.lookup h = some e ∧ e.parameters = P ∧
      e.live = !after.any (Request.releases h) := by
  -- The ledger the registration meets is arbitrary: what was asked before has no part in it.
  induction before generalizing L with
  | nil =>
    simp only [List.nil_append, run_cons] at hanswer ⊢
    cases made : Operator.ofParameters P with
    | ok op =>
      rw [respond_register_ok _ _ made]
      have hdrawn : (Request.register h P : Request H α σ).drawn? = some h := by
        simp [Request.drawn?, made, Except.isOk, Except.toBool]
      rw [Request.Distinct, List.nil_append, List.filterMap_cons_some hdrawn,
        List.nodup_cons] at hdistinct
      exact ⟨_, run_entry hdistinct.1 (put_self _ _ _), rfl, by simp⟩
    | error fault =>
      rw [respond_register_error _ _ made] at hanswer
      simp at hanswer
  | cons request before ih =>
    have hrest : Request.Distinct (before ++ .register h P :: after) :=
      hdistinct.sublist ((List.sublist_cons_self _ _).filterMap _)
    rw [List.cons_append, run_cons] at hanswer ⊢
    exact ih (L := (L.respond request).2) hrest (by simpa using hanswer)

end Ledger

namespace Registry

variable {σ : Type} [CoordinateSet σ α]

/-- **A registry is a table of parameters with a mark.**  Any session that starts with an empty
registry gets the answers a ledger gives, request by request.  Where no handle is drawn twice,
whoever was given a handle finds the parameters of its creation under it ever after, and they
compare equal to those; the operator is live until the first request to release it, whatever else is
asked. -/
theorem run_ledger [LawfulNaN α] (requests : List (Request H α σ)) :
    let registry := (empty : Registry H α).run requests
    let ledger := (Ledger.empty : Ledger H α).run requests
    registry.1 = ledger.1 ∧ registry.2.Represents ledger.2 ∧
      (Request.Distinct requests →
        ∀ before P h after, requests = before ++ .register h P :: after →
          registry.1[before.length]? = some (.registered h) →
          ∃ e, ledger.2.lookup h = some e ∧ e.parameters = P ∧ (e.parameters == P) = true ∧
            e.live = !after.any (Request.releases h)) := by
  intro registry ledger
  obtain ⟨hanswers, hlast⟩ := represents_empty.run requests
  refine ⟨hanswers, hlast, ?_⟩
  rintro hdistinct before P h after rfl hanswer
  rw [hanswers] at hanswer
  obtain ⟨e, he, rfl, hlive⟩ := Ledger.run_registered hdistinct hanswer
  exact ⟨e, he, rfl, Parameters.beq_self_of_ofParameters e.made, hlive⟩

/-- Machine numbers and handles of 128 bits: an ellipsoid without a semiminor axis is refused, and
its handle stays unknown; a sphere that has been released counts nothing, leaves a point alone, and
keeps its parameters. -/
theorem run_ledger_of_released_sphere :
    let P : Parameters Float := ⟨⟨1, 0⟩, 0, 0, 0, 0, 1, false⟩
    let flat : Parameters Float := { P with ellipsoid := ⟨1, 1⟩ }
    let h : BitVec 128 := 0x67e5504410b1426f9247bb680e5fe0c8
    let k : BitVec 128 := 0xf9168c5eceb24faab6bf329bf39fa1e4
    let s : Array (Coordinate Float) := #[⟨0, 0⟩]
    let requests : List (Request (BitVec 128) Float (Array (Coordinate Float))) :=
      [.register h P, .register k flat, .teardown h, .apply h .forward s, .apply k .forward s]
    let ledger := Ledger.empty.run requests
    Request.Distinct requests ∧
      ledger.1 = [.registered h, .refused (.badEllipsoid ⟨1, 1⟩), .released, .applied (.ok 0) s,
        .applied (.error (.unknownOperator (Handle.text k))) s] ∧
      ∃ e, ledger.2.lookup h = some e ∧ (e.parameters == P) = true ∧ e.live = false := by
  intro P flat h k s requests ledger
  have hsphere : (Operator.ofParameters P).isOk = true := by decide +kernel
  obtain ⟨op, hop⟩ : ∃ op, Operator.ofParameters P = .ok op := by
    cases hP : Operator.ofParameters P with
    | error fault =>
      rw [hP] at hsphere
      cases hsphere
    | ok op => exact ⟨op, rfl⟩
  have hflat : Operator.ofParameters flat = .error (.badEllipsoid ⟨1, 1⟩) := by
    have hcheck : flat.check = .error (.badEllipsoid ⟨1, 1⟩) := if_pos (by decide +kernel)
    rw [Operator.ofParameters, hcheck]
    rfl
  have hdistinct : Request.Distinct requests := by
    simp [Request.Distinct, requests, List.filterMap, Request.drawn?, hop, hflat, Except.isOk,
      Except.toBool]
  have hne : k ≠ h := by decide
  have hanswers : ledger.1 = [.registered h, .refused (.badEllipsoid ⟨1, 1⟩), .released,
      .applied (.ok 0) s, .applied (.error (.unknownOperator (Handle.text k))) s] := by
    simp only [ledger, requests, Ledger.run_cons, Ledger.respond_register_ok _ _ hop,
      Ledger.respond_register_error _ _ hflat]
    simp only [Ledger.respond, Ledger.put_self, Ledger.put_of_ne _ hne]
    rfl
  obtain ⟨hregistry, -, hregistered⟩ := run_ledger requests
  obtain ⟨e, he, -, hsame, hlive⟩ := hregistered hdistinct [] P h _ rfl
    (by rw [hregistry, hanswers]; rfl)
  exact ⟨hdistinct, hanswers, e, he, hsame, hlive⟩

end Registry

end EqualArea
