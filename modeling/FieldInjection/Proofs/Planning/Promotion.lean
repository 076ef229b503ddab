import FieldInjection.Proofs.Lists
import FieldInjection.Proofs.Planning.Fate

/-!
# What becomes of a class's parameters

A class without constructor parameters is left alone. Otherwise it is refused for its overloads, or else for the first
parameter that is not bound to a name, or else for the first one that names nothing to look up (`Refuses`), and a class
that is not refused has one field inserted and one parameter removed for each parameter, in their order (`IsPromotion`).
`promote_account` says that this is all that can happen. It also holds of a log that is changed in place and is not cut
back (`promoteInPlace`): whatever a class is refused for is found before the first edit is recorded.
-/

namespace FieldInjection

/-- The first element of a list that has a property. -/
def IsFirst {α : Type} (P : α → Prop) (x : α) (xs : List α) : Prop :=
  ∃ front back, xs = front ++ x :: back ∧ P x ∧ ∀ y ∈ front, ¬ P y

/-- A parameter names what it looks up: in a decorator, or by its declared type. -/
def Parameter.HasTarget (q : Parameter) : Prop :=
  (∃ d ∈ q.decorators, ∃ text, d.kind = .token text) ∨ q.declaredType ≠ none

namespace FieldPromotion

/-- What a class is refused for. -/
inductive Refuses (c : ClassDecl) (k : Constructor) : Refusal → Prop
  | overloads (hsome : 0 < k.overloads) :
    Refuses c k (.unsupportedConstructor c.name (Obstacle.overloads k.overloads).message)
  | rest {q : Parameter} (hnone : k.overloads = 0) (hfirst : IsFirst (fun p => p.binding ≠ .identifier) q k.parameters)
    (hrest : q.binding = .rest) : Refuses c k (.unsupportedConstructor c.name (Obstacle.restParameter q.name).message)
  | destructured {q : Parameter} (hnone : k.overloads = 0)
    (hfirst : IsFirst (fun p => p.binding ≠ .identifier) q k.parameters) (hpattern : q.binding = .destructured) :
    Refuses c k (.unsupportedConstructor c.name (Obstacle.destructuredParameter q.name).message)
  | malformed {q : Parameter} (hnone : k.overloads = 0) (hnames : ∀ p ∈ k.parameters, p.binding = .identifier)
    (hfirst : IsFirst (fun p => ¬ p.HasTarget) q k.parameters) : Refuses c k (.malformedParameter c.name q.name)

/-- A field that a parameter becomes. -/
structure IsFieldOf (function className : String) (q : Parameter) (f : Field) : Prop where
  name : f.name = q.name
  declaredType : f.declaredType = q.declaredType
  isReadonly : f.isReadonly = q.isReadonly
  isOverride : f.isOverride = q.isOverride
  scope : f.scope = q.scope
  initializer : Accessor.call function className q = .ok f.initializer

/-- A log with the edits of a promotion at its end: the insertion of a field for each parameter where the body of the
class begins, and the removal of each parameter. -/
def IsPromotion (function : String) (c : ClassDecl) (k : Constructor) (log log' : EditLog) : Prop :=
  ∃ fields removals, List.Forall₂ (IsFieldOf function c.name) k.parameters fields ∧
    List.Forall₂ (fun q e => ∃ range, e = ⟨c.file, .removeParameter c.name q.name, .delete range⟩)
      k.parameters removals ∧
    log' = log.extend (⟨c.file, .insertFields c.name (k.parameters.map Parameter.name),
      .insert c.bodyStart (fieldBlock c fields)⟩ :: removals)

/-- The promotion of the parameters of a class in a log that is changed in place: what has been recorded stays there
when the class is refused. -/
def promoteInPlace (function : String) (c : ClassDecl) : ExceptT Refusal (StateM EditLog) Outcome :=
  match c.constructor? with
  | none => return .unchanged
  | some k => do
    if k.parameters.isEmpty then return .unchanged
    if let some obstacle := obstacle? k then throw (.unsupportedConstructor c.name obstacle.message)
    let fields ← liftExcept (planFields function c)
    (edits c k fields).forM fun e => modify (·.push e)
    return .promoted fields.length

section
variable {function className : String} {q : Parameter} {qs : List Parameter} {c : ClassDecl} {k : Constructor}
  {log : EditLog} {refusal : Refusal}

/-! ## Targets and fields -/

theorem isFirst_cons {α : Type} {P : α → Prop} {x y : α} {xs : List α} :
    IsFirst P x (y :: xs) ↔ P y ∧ x = y ∨ ¬ P y ∧ IsFirst P x xs := by
  constructor
  · rintro ⟨front, back, hxs, hx, hfront⟩
    cases front with
    | nil =>
      obtain ⟨rfl, -⟩ := List.cons.inj hxs
      exact Or.inl ⟨hx, rfl⟩
    | cons z front =>
      obtain ⟨rfl, rfl⟩ := List.cons.inj hxs
      exact Or.inr ⟨hfront y List.mem_cons_self, front, back, rfl, hx, fun z hz => hfront z (List.mem_cons_of_mem y hz)⟩
  · rintro (⟨hy, rfl⟩ | ⟨hy, front, back, rfl, hx, hfront⟩)
    · exact ⟨[], xs, rfl, hy, by simp⟩
    · exact ⟨y :: front, back, rfl, hx, by simpa using ⟨hy, hfront⟩⟩

/-- A list has an element with a property exactly if it has a first one. -/
theorem exists_isFirst_iff {α : Type} {P : α → Prop} {xs : List α} : (∃ x, IsFirst P x xs) ↔ ∃ x ∈ xs, P x := by
  induction xs with
  | nil => simp [IsFirst]
  | cons y xs ih =>
    by_cases hy : P y
    · simp [isFirst_cons, hy]
    · simp [isFirst_cons, hy, ih]

theorem target_error_iff :
    Accessor.target className q = .error refusal ↔ ¬ q.HasTarget ∧ refusal = .malformedParameter className q.name := by
  have htoken : (∃ d ∈ q.decorators, ∃ text, d.kind = .token text) ↔
      (q.decorators.findSome? fun d => d.kind.token?).isSome := by
    rw [List.findSome?_isSome_iff]
    refine exists_congr fun d => and_congr_right fun _ => ?_
    cases d.kind <;> simp [DecoratorKind.token?]
  unfold Accessor.target Parameter.HasTarget
  rw [htoken]
  cases q.decorators.findSome? fun d => d.kind.token? with
  | some token => simp
  | none =>
    cases q.declaredType with
    | some type => simp
    | none => simp [eq_comm]

theorem call_error_iff : Accessor.call function className q = .error refusal ↔
    ¬ q.HasTarget ∧ refusal = .malformedParameter className q.name := by
  rw [← target_error_iff, Accessor.call]
  cases Accessor.target className q <;> simp

/-- A field cannot be made of a parameter that names nothing to look up, and of others it can. -/
theorem fieldOf_cases (function className : String) (q : Parameter) :
    (¬ q.HasTarget ∧ fieldOf function className q = .error (.malformedParameter className q.name)) ∨
      q.HasTarget ∧ ∃ field, fieldOf function className q = .ok field ∧ IsFieldOf function className q field := by
  cases hcall : Accessor.call function className q with
  | error refusal =>
    obtain ⟨hnone, rfl⟩ := call_error_iff.mp hcall
    exact Or.inl ⟨hnone, by rw [fieldOf, hcall]⟩
  | ok initializer =>
    have htarget : q.HasTarget := by
      by_contra hnone
      have herror : Accessor.call function className q = .error (.malformedParameter className q.name) :=
        call_error_iff.mpr ⟨hnone, rfl⟩
      rw [hcall] at herror
      cases herror
    refine Or.inr ⟨htarget, _, by rw [fieldOf, hcall], ?_⟩
    exact ⟨rfl, rfl, rfl, rfl, rfl, hcall⟩

/-- The fields of parameters fail for the first one that names nothing to look up. -/
theorem fieldsOf_error_iff : fieldsOf function className qs = .error refusal ↔
    ∃ q, IsFirst (fun p => ¬ p.HasTarget) q qs ∧ refusal = .malformedParameter className q.name := by
  induction qs with
  | nil => simp [fieldsOf, IsFirst]
  | cons q qs ih =>
    rcases fieldOf_cases function className q with ⟨hnone, hfield⟩ | ⟨htarget, field, hfield, -⟩
    · simp [fieldsOf, hfield, isFirst_cons, hnone, eq_comm]
    · have hrest : fieldsOf function className (q :: qs) = .error refusal ↔
          fieldsOf function className qs = .error refusal := by
        rw [fieldsOf, hfield]
        cases fieldsOf function className qs <;> simp
      simp only [hrest, ih, isFirst_cons, htarget, not_true_eq_false, false_and, not_false_eq_true, true_and, false_or]

theorem fieldsOf_eq_ok {fields : List Field} (h : fieldsOf function className qs = .ok fields) :
    List.Forall₂ (IsFieldOf function className) qs fields := by
  induction qs generalizing fields with
  | nil =>
    cases h
    exact .nil
  | cons q qs ih =>
    rcases fieldOf_cases function className q with ⟨-, hfield⟩ | ⟨-, field, hfield, hof⟩
    · simp [fieldsOf, hfield] at h
    · rw [fieldsOf, hfield] at h
      cases hrest : fieldsOf function className qs with
      | error refusal => simp [hrest] at h
      | ok rest =>
        rw [hrest] at h
        cases h
        exact .cons hof (ih hrest)

/-! ## Obstacles -/

theorem parameterObstacle?_eq_none_iff : parameterObstacle? q = none ↔ q.binding = .identifier := by
  unfold parameterObstacle?
  cases q.binding <;> simp

theorem obstacle?_eq_none_iff :
    obstacle? k = none ↔ k.overloads = 0 ∧ ∀ q ∈ k.parameters, q.binding = .identifier := by
  unfold obstacle?
  by_cases hoverloads : k.overloads = 0
  · simp [hoverloads, parameterObstacle?_eq_none_iff]
  · simp [hoverloads, Nat.pos_of_ne_zero hoverloads]

/-- The first parameter without a field form is an obstacle, if there are no overloads. -/
theorem refuses_of_obstacle {obstacle : Obstacle} (h : obstacle? k = some obstacle) :
    Refuses c k (.unsupportedConstructor c.name obstacle.message) := by
  unfold obstacle? at h
  split at h
  · rename_i hsome
    cases h
    exact .overloads hsome
  · rename_i hnone
    have hzero : k.overloads = 0 := by omega
    obtain ⟨front, q, back, hparameters, hobstacle, hfront⟩ := List.findSome?_eq_some_iff.mp h
    -- the parameters before the one that is found have field forms
    have hfirst : IsFirst (fun p => p.binding ≠ .identifier) q k.parameters := by
      refine ⟨front, back, hparameters, ?_, fun p hp => not_not.mpr (parameterObstacle?_eq_none_iff.mp (hfront p hp))⟩
      intro hidentifier
      rw [parameterObstacle?_eq_none_iff.mpr hidentifier] at hobstacle
      cases hobstacle
    unfold parameterObstacle? at hobstacle
    cases hbinding : q.binding with
    | identifier => simp [hbinding] at hobstacle
    | rest =>
      rw [hbinding] at hobstacle
      cases hobstacle
      exact .rest hzero hfirst hbinding
    | destructured =>
      rw [hbinding] at hobstacle
      cases hobstacle
      exact .destructured hzero hfirst hbinding

theorem findSome?_parameterObstacle {obstacle : Obstacle} (hq : IsFirst (fun p => p.binding ≠ .identifier) q qs)
    (hobstacle : parameterObstacle? q = some obstacle) : qs.findSome? parameterObstacle? = some obstacle := by
  obtain ⟨front, back, rfl, -, hfront⟩ := hq
  refine List.findSome?_eq_some_iff.mpr ⟨front, q, back, rfl, hobstacle, ?_⟩
  intro p hp
  exact parameterObstacle?_eq_none_iff.mpr (not_not.mp (hfront p hp))

/-- A class is refused for the obstacle of its constructor, or else for the first parameter that names nothing to look
up. -/
theorem refuses_iff : Refuses c k refusal ↔
    (∃ obstacle, obstacle? k = some obstacle ∧ refusal = .unsupportedConstructor c.name obstacle.message) ∨
      obstacle? k = none ∧
        ∃ q, IsFirst (fun p => ¬ p.HasTarget) q k.parameters ∧ refusal = .malformedParameter c.name q.name := by
  rw [obstacle?_eq_none_iff]
  constructor
  · intro h
    cases h with
    | overloads hsome => exact Or.inl ⟨_, by rw [obstacle?, if_pos hsome], rfl⟩
    | rest hnone hfirst hrest =>
      refine Or.inl ⟨_, ?_, rfl⟩
      rw [obstacle?, if_neg (by omega)]
      exact findSome?_parameterObstacle hfirst (by rw [parameterObstacle?, hrest])
    | destructured hnone hfirst hpattern =>
      refine Or.inl ⟨_, ?_, rfl⟩
      rw [obstacle?, if_neg (by omega)]
      exact findSome?_parameterObstacle hfirst (by rw [parameterObstacle?, hpattern])
    | malformed hnone hnames hfirst => exact Or.inr ⟨⟨hnone, hnames⟩, _, hfirst, rfl⟩
  · rintro (⟨obstacle, hobstacle, rfl⟩ | ⟨⟨hnone, hnames⟩, q, hfirst, rfl⟩)
    · exact refuses_of_obstacle hobstacle
    · exact .malformed hnone hnames hfirst

/-- A class is refused for something exactly if it has overloads, or a parameter that is not bound to a name, or one
that names nothing to look up. -/
theorem exists_refuses_iff : (∃ refusal, Refuses c k refusal) ↔
    0 < k.overloads ∨ (∃ q ∈ k.parameters, q.binding ≠ .identifier) ∨ ∃ q ∈ k.parameters, ¬ q.HasTarget := by
  cases hobstacle : obstacle? k with
  | none =>
    obtain ⟨hoverloads, hnames⟩ := obstacle?_eq_none_iff.mp hobstacle
    have hbound : ¬ ∃ q ∈ k.parameters, q.binding ≠ .identifier := by simpa using hnames
    have hfirst : (∃ refusal, Refuses c k refusal) ↔ ∃ q, IsFirst (fun p => ¬ p.HasTarget) q k.parameters := by
      simp only [refuses_iff, hobstacle, reduceCtorEq, false_and, exists_false, true_and, false_or]
      exact ⟨fun ⟨_, q, hq, _⟩ => ⟨q, hq⟩, fun ⟨q, hq⟩ => ⟨_, q, hq, rfl⟩⟩
    rw [hfirst, exists_isFirst_iff]
    simp only [hoverloads, Nat.lt_irrefl, hbound, false_or]
  | some obstacle =>
    refine iff_of_true ⟨_, refuses_of_obstacle hobstacle⟩ ?_
    by_contra hnot
    have hnone : obstacle? k = none := by
      rw [obstacle?_eq_none_iff]
      refine ⟨Nat.eq_zero_of_not_pos fun hpos => hnot (Or.inl hpos), fun q hq => ?_⟩
      by_contra hbinding
      exact hnot (Or.inr (Or.inl ⟨q, hq, hbinding⟩))
    rw [hnone] at hobstacle
    cases hobstacle

/-! ## The promotion -/

theorem promote_of_isEmpty (h : ∀ k, c.constructor? = some k → k.parameters = []) :
    promote function c log = .ok (log, .unchanged) := by
  unfold promote
  cases hk : c.constructor? with
  | none => rfl
  | some k => simp [h k hk]

/-- A class with parameters is refused exactly for what it is to be refused for. -/
theorem promote_eq_error_iff (hk : c.constructor? = some k) (hne : k.parameters ≠ []) :
    promote function c log = .error refusal ↔ Refuses c k refusal := by
  have hplan : planFields function c = fieldsOf function c.name k.parameters := by
    simp [planFields, ClassDecl.parameters, hk]
  have herror : fieldsOf function c.name k.parameters = .error refusal ↔ _ := fieldsOf_error_iff
  rw [refuses_iff, ← herror, promote, hk, hplan]
  simp only [List.isEmpty_iff, hne, if_false]
  cases obstacle? k with
  | some obstacle => simp [eq_comm]
  | none => cases fieldsOf function c.name k.parameters <;> simp

/-- A class with parameters that is not refused is promoted. -/
theorem promote_of_not_refused (function : String) (log : EditLog) (hk : c.constructor? = some k) (hne : k.parameters ≠ [])
    (h : ¬ ∃ refusal, Refuses c k refusal) : ∃ fields, fieldsOf function c.name k.parameters = .ok fields ∧
      promote function c log = .ok (log.extend (edits c k fields), .promoted fields.length) := by
  have hplan : planFields function c = fieldsOf function c.name k.parameters := by
    simp [planFields, ClassDecl.parameters, hk]
  cases hobstacle : obstacle? k with
  | some obstacle => exact absurd ⟨_, refuses_of_obstacle hobstacle⟩ h
  | none =>
    cases hfields : fieldsOf function c.name k.parameters with
    | error refusal => exact absurd ⟨refusal, refuses_iff.mpr (Or.inr ⟨hobstacle, fieldsOf_error_iff.mp hfields⟩)⟩ h
    | ok fields =>
      refine ⟨fields, rfl, ?_⟩
      simp [promote, hk, hplan, hne, hobstacle, hfields, EditLog.foldl_push]

theorem names_of_fields {fields : List Field} (h : List.Forall₂ (IsFieldOf function className) qs fields) :
    fields.map Field.name = qs.map Parameter.name :=
  (map_eq_of_forall₂ h fun _ _ hfield => hfield.name.symm).symm

theorem isPromotion_edits {fields : List Field} (h : fieldsOf function c.name k.parameters = .ok fields) :
    IsPromotion function c k log (log.extend (edits c k fields)) := by
  have hfields := fieldsOf_eq_ok h
  have hlen := length_removalRanges k.parameterList.start k.parameterList.stop k.parameters
  refine ⟨fields, _, hfields, forall₂_zipWith (fun q range => ⟨range, rfl⟩) hlen, ?_⟩
  rw [edits, names_of_fields hfields]

/-- In place, one edit is recorded after the other. -/
theorem run_forM_push (es : List PlannedEdit) (log : EditLog) :
    (es.forM fun e => modify (·.push e) : ExceptT Refusal (StateM EditLog) PUnit).run.run log =
      (.ok ⟨⟩, log.extend es) := by
  induction es generalizing log with
  | nil => rw [EditLog.extend_nil]; rfl
  | cons e es ih =>
    have hrest := ih (log.push e)
    rw [EditLog.push_eq_extend, EditLog.extend_extend] at hrest
    exact hrest

/-- A promotion in place has the same outcome, and a class that is refused leaves the log as it was. -/
theorem run_promoteInPlace (function : String) (c : ClassDecl) (log : EditLog) :
    (promoteInPlace function c).run.run log = match promote function c log with
      | .ok (log', outcome) => (.ok outcome, log')
      | .error refusal => (.error refusal, log) := by
  unfold promoteInPlace promote
  cases c.constructor? with
  | none => rfl
  | some k =>
    by_cases hp : k.parameters.isEmpty = true
    · simp only [hp]
      rfl
    · simp only [hp]
      cases obstacle? k with
      | some obstacle => rfl
      | none =>
        cases planFields function c with
        | error refusal => rfl
        | ok fields =>
          have hpush := run_forM_push (edits c k fields) log
          simp only [EditLog.foldl_push, liftExcept, pure_bind, bind_pure_comp, Bool.false_eq_true, if_false]
          rw [ExceptT.run_map, StateT.run_map, hpush]
          rfl

end

/-- **What becomes of a class**: it is left alone exactly if it has no constructor or one without parameters, and then
the log stays as it is. It is refused exactly if it has parameters and overloads, or a parameter that is not bound to
a name, or a parameter that names nothing to look up: for the overloads, or else the first parameter of the one kind,
or else the first of the other kind. In all other cases the log gains the insertion of a field for each parameter and
the removal of each parameter, in their order. A log that is changed in place is left as it was by a class that is
refused or left alone.
-/
theorem promote_account (function : String) (c : ClassDecl) (log : EditLog) :
    (∀ log', promote function c log = .ok (log', .unchanged) ↔
      log' = log ∧ ∀ k, c.constructor? = some k → k.parameters = []) ∧
    (∀ refusal, promote function c log = .error refusal ↔
      ∃ k, c.constructor? = some k ∧ k.parameters ≠ [] ∧ Refuses c k refusal) ∧
    ((∃ refusal, promote function c log = .error refusal) ↔ ∃ k, c.constructor? = some k ∧ k.parameters ≠ [] ∧
      (0 < k.overloads ∨ (∃ q ∈ k.parameters, q.binding ≠ .identifier) ∨ ∃ q ∈ k.parameters, ¬ q.HasTarget)) ∧
    (∀ k, c.constructor? = some k → k.parameters ≠ [] → k.overloads = 0 →
      (∀ q ∈ k.parameters, q.binding = .identifier ∧ q.HasTarget) →
      ∃ log', promote function c log = .ok (log', .promoted k.parameters.length) ∧ IsPromotion function c k log log') ∧
    (promoteInPlace function c).run.run log = match promote function c log with
      | .ok (log', outcome) => (.ok outcome, log')
      | .error refusal => (.error refusal, log) := by
  by_cases hempty : ∀ k, c.constructor? = some k → k.parameters = []
  · -- left alone
    have hpromote : promote function c log = .ok (log, .unchanged) := promote_of_isEmpty hempty
    have hnever : ∀ P : Constructor → Prop, ¬ ∃ k, c.constructor? = some k ∧ k.parameters ≠ [] ∧ P k :=
      fun _ ⟨k, hk, hne, _⟩ => hne (hempty k hk)
    refine ⟨fun log' => ?_, fun refusal => ?_, ?_, fun k hk hne => absurd (hempty k hk) hne,
      run_promoteInPlace function c log⟩
    · simpa [hpromote, eq_comm] using fun _ => hempty
    · exact iff_of_false (by simp [hpromote]) (hnever _)
    · exact iff_of_false (by simp [hpromote]) (hnever _)
  · -- it has one constructor with parameters, of which all that is said speaks
    obtain ⟨k, hk, hne⟩ : ∃ k, c.constructor? = some k ∧ k.parameters ≠ [] := by simpa using hempty
    have hthis : ∀ P : Constructor → Prop, (∃ k', c.constructor? = some k' ∧ k'.parameters ≠ [] ∧ P k') ↔ P k := by
      intro P
      constructor
      · rintro ⟨k', hk', -, hP⟩
        rw [hk] at hk'
        cases hk'
        exact hP
      · exact fun hP => ⟨k, hk, hne, hP⟩
    refine ⟨fun log' => ?_, fun refusal => ?_, ?_, ?_, run_promoteInPlace function c log⟩
    · -- it is not left alone
      refine iff_of_false ?_ fun h => hne (h.2 k hk)
      by_cases hrefused : ∃ refusal, Refuses c k refusal
      · obtain ⟨refusal, hrefusal⟩ := hrefused
        have hpromote : promote function c log = .error refusal := (promote_eq_error_iff hk hne).mpr hrefusal
        simp [hpromote]
      · obtain ⟨fields, -, hpromote⟩ := promote_of_not_refused function log hk hne hrefused
        simp [hpromote]
    · rw [promote_eq_error_iff hk hne, hthis]
    · rw [hthis, ← exists_refuses_iff]
      exact exists_congr fun refusal => promote_eq_error_iff hk hne
    · -- nothing refuses it
      intro k' hk' _ hoverloads hparameters
      rw [hk] at hk'
      cases hk'
      have hnot : ¬ ∃ refusal, Refuses c k refusal := by
        rw [exists_refuses_iff]
        rintro (hsome | ⟨q, hq, hbinding⟩ | ⟨q, hq, htarget⟩)
        · omega
        · exact hbinding (hparameters q hq).1
        · exact htarget (hparameters q hq).2
      obtain ⟨fields, hfields, hpromote⟩ := promote_of_not_refused function log hk hne hnot
      have hlength := (fieldsOf_eq_ok hfields).length_eq
      exact ⟨_, by rw [hpromote, hlength], isPromotion_edits hfields⟩

end FieldPromotion

end FieldInjection
