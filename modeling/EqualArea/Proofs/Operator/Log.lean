import EqualArea.Proofs.Ellipsoid.Mapping
import EqualArea.Proofs.Operator.Pointwise
import EqualArea.Proofs.Registry.Session

/-!
# What an operator writes into the log

The log of an operator from its creation to its release, for numbers of any kind.

* `Refusal.IsTraced`, `Traces` — a refusal the log has a trace record for, and a mapping that has
  no others.
* `Projection.forward_traces`, `Projection.inverse_traces` — the mappings of a projection that has
  not been torn down.
* `Operator.levels_create`, `Operator.levels_apply`, `Operator.levels_teardown` — the log of each
  thing that can be done.
* `Use`, `Operator.perform`, `Operator.life` — whatever is done with one operator, one thing after
  the other.
* `Operator.value_life`, `Operator.count_debug_life` — the operator after a life, and the log of a
  life.
* `Operator.log_discipline` — the whole.

**Design.**  The log is read through the levels of its records, and the levels of an application
follow from its count alone.  A life is a fold in the monad of logged values, so the log of a life
is that of its parts, in their order.
-/

namespace EqualArea

open LawfulCoordinateSet (toList)

/-- The levels of the records of a log, in their order. -/
def levels (log : List Record) : List Level := log.map Record.level

@[simp] lemma levels_nil : levels [] = [] := rfl

@[simp] lemma levels_append (log₁ log₂ : List Record) :
    levels (log₁ ++ log₂) = levels log₁ ++ levels log₂ := List.map_append

/-! ## Refused points -/

/-- The constants for the ellipsoid were there, so the log says why the point has no image. -/
def Refusal.IsTraced (refusal : Refusal) : Prop := refusal ≠ .released

lemma Refusal.IsTraced.record? {refusal : Refusal} (h : refusal.IsTraced) :
    refusal.record?.map Record.level = some .trace := by
  cases refusal with
  | released => exact absurd rfl h
  | _ => rfl

/-- Every refusal of a mapping is traced. -/
def Traces {β : Type} (x : Except Refusal β) : Prop :=
  ∀ refusal, x = .error refusal → refusal.IsTraced

namespace Traces

variable {β γ : Type} {x : Except Refusal β}

lemma ok (b : β) : Traces (.ok b : Except Refusal β) := fun _ h => by cases h

lemma error {refusal : Refusal} (h : refusal.IsTraced) : Traces (.error refusal : Except Refusal β) :=
  fun _ hrefusal => Except.error.inj hrefusal ▸ h

lemma bind {f : β → Except Refusal γ} (hx : Traces x) (hf : ∀ b, Traces (f b)) :
    Traces (x >>= f) := by
  cases x with
  | error refusal => exact error (hx refusal rfl)
  | ok b => exact hf b

end Traces

variable {α : Type} [Arith α]

namespace Projection

variable {p : Projection α} {s : Spheroid α}

lemma scaledPoint_traces (b e n : α) : Traces (scaledPoint b e n) := by
  unfold scaledPoint
  split_ifs
  · exact .error nofun
  · exact .ok _

theorem forwardSphere_traces (p : Projection α) (lambda phi : α) :
    Traces (p.forwardSphere lambda phi) := by
  unfold forwardSphere
  cases p.aspect with
  | equatorial => exact scaledPoint_traces _ _ _
  | oblique => exact scaledPoint_traces _ _ _
  | northPolar =>
    dsimp only
    split_ifs
    · exact .error nofun
    · exact .ok _
  | southPolar =>
    dsimp only
    split_ifs
    · exact .error nofun
    · exact .ok _

theorem inverseSphere_traces (p : Projection α) (x y : α) : Traces (p.inverseSphere x y) := by
  unfold inverseSphere
  -- The rim is tested before the aspect is looked at.
  by_cases houtside : 1 < Arith.hypot x y * 0.5
  · simp only [if_pos houtside]
    exact .error nofun
  · simp only [if_neg houtside]
    cases p.aspect <;> exact .ok _

lemma radialScale_traces (b : α) : Traces (radialScale b) := by
  unfold radialScale
  split_ifs
  · exact .error nofun
  · exact .ok _

lemma polarRadius_traces (fromAntipode squared : α) : Traces (polarRadius fromAntipode squared) := by
  unfold polarRadius
  split_ifs
  · exact .error nofun
  · exact .ok _
  · exact .ok _

theorem forwardEllipsoid_traces (hs : p.spheroid? = some s) (lambda phi : α) :
    Traces (p.forwardEllipsoid lambda phi) := by
  unfold forwardEllipsoid
  simp only [hs]
  -- Whatever the aspect, only the scale can refuse a point.
  cases p.aspect with
  | oblique => exact (radialScale_traces _).bind fun _ => .ok _
  | equatorial => exact (radialScale_traces _).bind fun _ => .ok _
  | northPolar => exact (polarRadius_traces _ _).bind fun rho => by cases rho <;> exact .ok _
  | southPolar => exact (polarRadius_traces _ _).bind fun rho => by cases rho <;> exact .ok _

lemma bearing_traces (p : Projection α) (s : Spheroid α) (x y : α) :
    Traces (p.bearing s x y) := by
  have hdisc : Traces (p.bearingOfDisc s x y) := by
    unfold bearingOfDisc
    dsimp only
    split_ifs
    · exact .ok _
    · exact .error nofun
    · exact .ok _
    · exact .ok _
  unfold bearing
  cases p.aspect with
  | equatorial => exact hdisc
  | oblique => exact hdisc
  | northPolar => exact .ok _
  | southPolar => exact .ok _

theorem inverseEllipsoid_traces (hs : p.spheroid? = some s) (x y : α) :
    Traces (p.inverseEllipsoid x y) := by
  unfold inverseEllipsoid
  simp only [hs]
  refine (bearing_traces p s x y).bind fun b => ?_
  cases b with
  | none => exact .ok _
  | some b =>
    dsimp only
    split_ifs
    · exact .error nofun
    · exact .ok _

/-- A projection runs the mapping of the ellipsoid only where it has the constants. -/
theorem forward_traces (p : Projection α) (lambda phi : α) : Traces (p.forward lambda phi) := by
  unfold forward
  cases hs : p.spheroid? with
  | none => exact p.forwardSphere_traces lambda phi
  | some s => exact forwardEllipsoid_traces hs lambda phi

theorem inverse_traces (p : Projection α) (x y : α) : Traces (p.inverse x y) := by
  unfold inverse
  cases hs : p.spheroid? with
  | none => exact p.inverseSphere_traces x y
  | some s => exact inverseEllipsoid_traces hs x y

end Projection

namespace Operator

variable {P : Parameters α} {p : Projection α} {op : Operator α}

/-! ## One thing that is done -/

/-- Parameters that define no operator are refused with a warning. -/
lemma record?_of_ofParameters {fault : Fault α} (h : ofParameters P = .error fault) :
    fault.record?.map Record.level = some .warn := by
  unfold ofParameters at h
  -- The tests of the parameters come first, so a fault is one of theirs, or else that of the
  -- latitude.
  cases hcheck : P.check with
  | error fault' =>
    rw [hcheck] at h
    obtain rfl := Except.error.inj h
    simp only [Parameters.check] at hcheck
    split_ifs at hcheck <;> obtain rfl := Except.error.inj hcheck <;> rfl
  | ok _ =>
    rw [hcheck] at h
    unfold Projection.centredAt at h
    cases haspect : Aspect.ofLatitude P.latitude with
    | ok aspect =>
      rw [haspect] at h
      cases h
    | error fault' =>
      rw [haspect] at h
      obtain rfl := Except.error.inj h
      simp only [Aspect.ofLatitude] at haspect
      split_ifs at haspect
      obtain rfl := Except.error.inj haspect
      rfl

/-- A refused creation leaves one warning, and any other one record of the new operator. -/
theorem levels_create (P : Parameters α) :
    levels (create P).run.log = [if (ofParameters P).isOk then .debug else .warn] := by
  cases hop : ofParameters P with
  | ok op =>
    rw [create_of_ok hop]
    rfl
  | error fault =>
    have hlog : (create P).run.log = fault.record?.toList := by
      unfold create
      rw [hop]
      exact List.append_nil _
    have hlevel := record?_of_ofParameters hop
    rw [hlog]
    cases hrecord : fault.record? with
    | none =>
      rw [hrecord] at hlevel
      cases hlevel
    | some record =>
      rw [hrecord] at hlevel
      exact congrArg (fun level => [level]) (Option.some.inj hlevel)

/-- Whatever a new operator runs, its refusals are traced. -/
lemma pointMap?_traces (P : Parameters α) (p : Projection α) {direction : Direction}
    {f : Coordinate α → Except Refusal (Coordinate α)}
    (hf : (ofProjection P p).pointMap? direction = some f) (c : Coordinate α) :
    Traces (f c) := by
  rw [pointMap?_ofProjection] at hf
  obtain rfl := Option.some.inj hf
  split_ifs
  · exact (p.inverse_traces _ _).bind fun _ => .ok _
  · exact (p.forward_traces _ _).bind fun _ => .ok _

/-- A coordinate leaves a record unless it is counted. -/
lemma level_record? (P : Parameters α) (p : Projection α) (direction : Direction)
    (c : Coordinate α) :
    ((ofProjection P p).record? direction c).map Record.level =
      if (ofProjection P p).counts direction c then none else some .trace := by
  obtain ⟨f, hf⟩ : ∃ f, (ofProjection P p).pointMap? direction = some f :=
    ⟨_, pointMap?_ofProjection P p direction⟩
  have htraces := pointMap?_traces P p hf c
  simp only [record?, counts, hf, Option.bind_some, CoordinateSet.refusal?, CoordinateSet.hasImage]
  cases hc : f c with
  | ok d => rfl
  | error refusal => exact (htraces refusal hc).record?

/-- A list of coordinates leaves as many records as it has coordinates that are not counted. -/
lemma levels_filterMap (P : Parameters α) (p : Projection α) (direction : Direction)
    (l : List (Coordinate α)) :
    levels (l.filterMap ((ofProjection P p).record? direction)) =
      List.replicate (l.length - l.countP ((ofProjection P p).counts direction)) .trace := by
  -- A member is counted or leaves a record, so the log grows exactly when the difference of length
  -- and count does.
  induction l with
  | nil => rfl
  | cons c l ih =>
    have hlevel := level_record? P p direction c
    have hle := List.countP_le_length (p := (ofProjection P p).counts direction) (l := l)
    cases hcounts : (ofProjection P p).counts direction c with
    | true =>
      rw [hcounts, if_pos rfl, Option.map_eq_none_iff] at hlevel
      rw [List.filterMap_cons_none hlevel, ih, List.countP_cons_of_pos hcounts, List.length_cons,
        Nat.add_sub_add_right]
    | false =>
      rw [hcounts, if_neg (by simp), Option.map_eq_some_iff] at hlevel
      obtain ⟨record, hrecord, hrecordLevel⟩ := hlevel
      rw [List.filterMap_cons_some hrecord, List.countP_cons_of_neg (by simp [hcounts]),
        List.length_cons, Nat.sub_add_comm hle, List.replicate_succ, ← ih, ← hrecordLevel]
      rfl

section

variable {σ : Type} [CoordinateSet σ α] [LawfulCoordinateSet σ α]

/-- No more coordinates are counted than there are. -/
lemma successes_le_size (op : Operator α) (direction : Direction) (s : σ) :
    (op.apply direction s).value.1 ≤ CoordinateSet.size s := by
  rw [successes_apply, LawfulCoordinateSet.size_eq]
  exact List.countP_le_length

/-- **An application leaves a trace for every coordinate it does not count**, and nothing else. -/
theorem levels_apply (P : Parameters α) (p : Projection α) (direction : Direction) (s : σ) :
    levels ((ofProjection P p).apply direction s).log =
      List.replicate (CoordinateSet.size s - ((ofProjection P p).apply direction s).value.1)
        .trace := by
  rw [log_apply, successes_apply, LawfulCoordinateSet.size_eq, levels_filterMap]

end

omit [Arith α] in
/-- A release is announced where there was something to release. -/
theorem levels_teardown (op : Operator α) :
    levels op.teardown.log = if op.projection.spheroid?.isSome then [.debug] else [] := by
  simp only [teardown, Logged.log_bind, Logged.log_pure, List.append_nil, Projection.teardown]
  cases op.projection.spheroid? <;> rfl

omit [Arith α] in
lemma spheroid?_teardown (op : Operator α) : op.teardown.value.projection.spheroid? = none := by
  simp only [teardown, Logged.value_bind, Logged.value_pure, Projection.teardown]
  cases hs : op.projection.spheroid? with
  | none => exact hs
  | some s => rfl

end Operator

/-! ## A life -/

/-- What can be done with an operator. -/
inductive Use (α : Type) [Arith α] : Type 1 where
  /-- To apply it to a set, kept in whatever way. -/
  | apply {σ : Type} [CoordinateSet σ α] [LawfulCoordinateSet σ α] (direction : Direction) (s : σ)
  /-- To release its state. -/
  | teardown

/-- Whether the state is released. -/
def Use.isTeardown : Use α → Bool
  | @apply _ _ _ _ _ _ _ => false
  | .teardown => true

namespace Operator

variable {P : Parameters α} {p : Projection α} {op : Operator α}

/-- The operator after a use. -/
def perform (op : Operator α) : Use α → Logged (Operator α)
  | @Use.apply _ _ _ _ _ direction s => do
    let _ ← op.apply direction s
    return op
  | .teardown => op.teardown

/-- The operator after one use and another. -/
def life (op : Operator α) (uses : List (Use α)) : Logged (Operator α) := uses.foldlM perform op

lemma value_life_cons (op : Operator α) (use : Use α) (uses : List (Use α)) :
    (op.life (use :: uses)).value = ((op.perform use).value.life uses).value := by
  rw [life, List.foldlM_cons, Logged.value_bind, life]

lemma log_life_cons (op : Operator α) (use : Use α) (uses : List (Use α)) :
    (op.life (use :: uses)).log =
      (op.perform use).log ++ ((op.perform use).value.life uses).log := by
  rw [life, List.foldlM_cons, Logged.log_bind, life]

/-- **Nothing but the first release changes an operator.** -/
theorem value_life (op : Operator α) (uses : List (Use α)) :
    (op.life uses).value = if uses.any Use.isTeardown then op.teardown.value else op := by
  induction uses generalizing op with
  | nil => rfl
  | cons use uses ih =>
    rw [value_life_cons, ih, List.any_cons]
    -- An application hands on the operator it was given.  Releasing a released operator changes
    -- nothing, so only the first release shows.
    cases use with
    | apply direction s => rfl
    | teardown =>
      have htwice : (op.perform .teardown).value.teardown.value = (op.perform .teardown).value :=
        op.teardown_teardown
      rw [htwice, ite_self]
      rfl

/-- **An operator that has been torn down writes nothing any more.** -/
theorem log_life_teardown (op : Operator α) (uses : List (Use α)) :
    (op.teardown.value.life uses).log = [] := by
  -- A released operator is the same after every use, so it does not have to be generalised.
  induction uses with
  | nil => rfl
  | cons use uses ih =>
    rw [log_life_cons]
    cases use with
    | apply direction s =>
      have hlog : (op.teardown.value.apply direction s).log = [] := by
        rw [apply_teardown, Logged.log_pure]
      change ((op.teardown.value.apply direction s).log ++ []) ++ _ = []
      rw [hlog, List.nil_append, List.nil_append]
      exact ih
    | teardown =>
      have hlevels := levels_teardown op.teardown.value
      rw [spheroid?_teardown, Option.isSome_none, if_neg (by simp)] at hlevels
      have hlog : op.teardown.value.teardown.log = [] := List.map_eq_nil_iff.mp hlevels
      have hvalue := op.teardown_teardown
      change op.teardown.value.teardown.log ++ (op.teardown.value.teardown.value.life uses).log = []
      rw [hlog, hvalue, List.nil_append]
      exact ih

/-- After a release an application leaves nothing. -/
theorem levels_apply_life {σ : Type} [CoordinateSet σ α] [LawfulCoordinateSet σ α]
    (P : Parameters α) (p : Projection α) (uses : List (Use α)) (direction : Direction) (s : σ) :
    let now := ((ofProjection P p).life uses).value
    levels (now.apply direction s).log = if uses.any Use.isTeardown then [] else
      List.replicate (CoordinateSet.size s - (now.apply direction s).value.1) .trace := by
  dsimp only
  rw [value_life]
  cases uses.any Use.isTeardown with
  | true =>
    rw [if_pos rfl, if_pos rfl, apply_teardown]
    rfl
  | false => exact levels_apply P p direction s

/-- The second release leaves nothing. -/
theorem levels_teardown_life (P : Parameters α) (p : Projection α) (uses : List (Use α)) :
    levels ((ofProjection P p).life uses).value.teardown.log =
      if !uses.any Use.isTeardown && p.spheroid?.isSome then [.debug] else [] := by
  rw [value_life]
  cases uses.any Use.isTeardown with
  | true =>
    rw [if_pos rfl, levels_teardown, spheroid?_teardown]
    rfl
  | false => exact levels_teardown _

/-- **The log of a life has one debug record, of the first release, and else only traces.** -/
theorem count_debug_life (P : Parameters α) (p : Projection α) (uses : List (Use α)) :
    let op := ofProjection P p
    (levels (op.life uses).log).count .debug =
        (if uses.any Use.isTeardown && p.spheroid?.isSome then 1 else 0) ∧
      .warn ∉ levels (op.life uses).log := by
  intro op
  induction uses with
  | nil => exact ⟨rfl, List.not_mem_nil⟩
  | cons use uses ih =>
    rw [log_life_cons, levels_append, List.any_cons]
    -- Up to the first release the operator is that of the start, and the induction hypothesis is
    -- about the rest.  After it the rest is silent.
    cases use with
    | apply direction s =>
      have happly : levels (op.perform (.apply direction s)).log = List.replicate
          (CoordinateSet.size s - (op.apply direction s).value.1) .trace := by
        rw [← levels_apply P p direction s]
        exact congrArg levels (List.append_nil _)
      obtain ⟨hcount, hwarn⟩ := ih
      rw [happly]
      refine ⟨?_, ?_⟩
      · rw [List.count_append, List.count_replicate]
        exact (Nat.zero_add _).trans hcount
      · rw [List.mem_append, List.mem_replicate]
        rintro (⟨-, h⟩ | h)
        · cases h
        · exact hwarn h
    | teardown =>
      have hrest := log_life_teardown op uses
      change (levels op.teardown.log ++ levels (op.teardown.value.life uses).log).count _ = _ ∧
        _ ∉ levels op.teardown.log ++ levels (op.teardown.value.life uses).log
      rw [hrest, levels_nil, List.append_nil, levels_teardown]
      change (if p.spheroid?.isSome then [Level.debug] else []).count _ = _ ∧
        _ ∉ (if p.spheroid?.isSome then [Level.debug] else [])
      cases p.spheroid?.isSome with
      | true => exact ⟨rfl, by decide⟩
      | false => exact ⟨rfl, by decide⟩

/-! ## The whole -/

/-- **What an operator writes into the log.**  Parameters that define no operator leave one warning,
and others one debug record.  However an operator has been used before: until its state is released
an application leaves a trace for every coordinate it does not count, and the release a debug record
where there are constants for an ellipsoid; afterwards nothing is written.  So a whole life has one
debug record at most. -/
theorem log_discipline (P : Parameters α) :
    (∀ fault, (create P).run.value = .error fault → levels (create P).run.log = [.warn]) ∧
      ∀ op, (create P).run.value = .ok op →
        levels (create P).run.log = [.debug] ∧
        ∀ uses : List (Use α),
          let now := (op.life uses).value
          let torn := uses.any Use.isTeardown
          let ellipsoidal := op.projection.spheroid?.isSome
          (∀ {σ : Type} [CoordinateSet σ α] [LawfulCoordinateSet σ α] (direction : Direction)
              (s : σ),
            (now.apply direction s).value.1 ≤ CoordinateSet.size s ∧
              levels (now.apply direction s).log = if torn then [] else
                List.replicate (CoordinateSet.size s - (now.apply direction s).value.1) .trace) ∧
          levels now.teardown.log = (if !torn && ellipsoidal then [.debug] else []) ∧
          (levels (op.life uses).log).count .debug = (if torn && ellipsoidal then 1 else 0) ∧
          .warn ∉ levels (op.life uses).log := by
  rw [create_value, levels_create]
  refine ⟨fun fault hfault => by rw [hfault]; rfl, fun op hop => ⟨by rw [hop]; rfl, ?_⟩⟩
  obtain ⟨-, p, -, rfl⟩ := ofParameters_eq_ok.mp hop
  intro uses now torn ellipsoidal
  exact ⟨fun direction s =>
      ⟨successes_le_size now direction s, levels_apply_life P p uses direction s⟩,
    levels_teardown_life P p uses, count_debug_life P p uses⟩

/-- One axis half as long as the other, and the antipode of the centre beside the centre: one trace
for the two points, and one debug record for two releases.  A flattening of one is refused. -/
theorem log_discipline_around_antipode :
    levels (create (⟨⟨1, 1⟩, 0, 0, 0, 0, 1, false⟩ : Parameters ℝ)).run.log = [.warn] ∧
      ∃ op, (create (⟨⟨1, 1 / 2⟩, 0, 0, 0, 0, 1, false⟩ : Parameters ℝ)).run.value = .ok op ∧
        let points : Array (Coordinate ℝ) := #[⟨0, 0⟩, ⟨Real.pi, 0⟩]
        levels (op.apply .forward points).log = [.trace] ∧
          (levels (op.life [.apply .forward points, .teardown, .apply .inverse points,
            .teardown]).log).count .debug = 1 := by
  constructor
  · set P : Parameters ℝ := ⟨⟨1, 1⟩, 0, 0, 0, 0, 1, false⟩
    have hround : ¬P.Valid := fun hvalid => by
      have hlt : (1 : ℝ) * (2 - 1) < 1 := hvalid.eccentricitySq_lt_one
      norm_num at hlt
    cases hcreated : (create P).run.value with
    | error fault => exact (log_discipline P).1 fault hcreated
    | ok op => exact absurd (create_eq_ok.mp hcreated).1 hround
  · set e : Ellipsoid ℝ := ⟨1, 1 / 2⟩
    set P : Parameters ℝ := ⟨e, 0, 0, 0, 0, 1, false⟩
    have he : e.Flattened := Ellipsoid.flattened_half
    have hvalid : P.Valid := ⟨one_pos, he.pos.le, he.lt_one, one_pos⟩
    have hp := Projection.centredAt_zero he
    set p := Projection.ofEllipsoid .equatorial 0 e
    have hop : (create P).run.value = .ok (ofProjection P p) :=
      create_eq_ok.mpr ⟨hvalid, p, hp, rfl⟩
    refine ⟨_, hop, ?_⟩
    intro points
    obtain ⟨-, hlife⟩ := (log_discipline P).2 _ hop
    obtain ⟨happly, -⟩ := hlife []
    obtain ⟨-, -, hcount, -⟩ :=
      hlife [.apply .forward points, .teardown, .apply .inverse points, .teardown]
    refine ⟨?_, hcount⟩
    -- What is left is the count, and whether a point counts is decided by its height over the
    -- antipode.
    obtain ⟨s, hs, hof, hframe⟩ := Projection.exists_spheroid he hp
    obtain ⟨hfitted, -⟩ := hframe (.inl rfl)
    have hF : p.HasFrame Frame.equator := .equatorial rfl
    have hup (lambda : ℝ) :
        (Frame.equator.sight lambda (s.authalicLatitude 0)).up = Real.cos lambda := by
      simp [hof.authalicLatitude_eq, e.authalic_zero, Frame.sight, Frame.equator]
    have hforward (lambda : ℝ) := Projection.forwardEllipsoid_of_frame hs hfitted hF lambda 0
    simp only [hup] at hforward
    have htolerance := tolerance_pos
    have hmap : (ofProjection P p).pointMap? .forward =
        some ((ofProjection P p).onMap p.forwardEllipsoid) := by
      rw [pointMap?_ofProjection, if_neg (by simp [P])]
      rfl
    have hmeridian (lambda : ℝ) : p.forwardEllipsoid (lambda - P.meridian) 0 =
        p.forwardEllipsoid lambda 0 := congrArg (p.forwardEllipsoid · 0) (sub_zero lambda)
    have hcentre : (ofProjection P p).counts .forward ⟨0, 0⟩ = true := by
      have hvalue := hforward 0
      rw [Real.cos_zero, if_neg (by linarith [tolerance_lt_one])] at hvalue
      rw [← hmeridian 0] at hvalue
      exact counts_of_ok hmap (onMap_ok _ ⟨0, 0⟩ hvalue)
    have hantipode : (ofProjection P p).counts .forward ⟨Real.pi, 0⟩ = false := by
      have hvalue := hforward Real.pi
      rw [Real.cos_pi, if_pos (by linarith)] at hvalue
      rw [← hmeridian Real.pi] at hvalue
      exact counts_of_error hmap (onMap_error _ ⟨Real.pi, 0⟩ hvalue)
    have hsuccesses : ((ofProjection P p).apply .forward points).value.1 = 1 := by
      rw [successes_apply]
      change List.countP _ [_, _] = 1
      simp only [List.countP_cons, List.countP_nil, hcentre, hantipode]
      rfl
    refine (happly .forward points).2.trans ?_
    change List.replicate (2 - ((ofProjection P p).apply .forward points).value.1) Level.trace = _
    rw [hsuccesses]
    rfl

end Operator

end EqualArea
