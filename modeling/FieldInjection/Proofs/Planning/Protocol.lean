import FieldInjection.Proofs.Planning.Sum
import FieldInjection.Migration.Run
import FieldInjection.Report

/-!
# The protocol of a run

A run loads a project once, plans it, and then calls its provider once more: to preview the log of the plan if it is a
dry run, and else to commit it. If there is no project or no plan of it, it calls the provider no more. In between it
tells its user which classes fail, and at the end how it went.

The calls are looked at from two sides. `Provider.recording` has a provider keep a record of its calls, with what it is
given; and the steps that a run reports, without the events for the log, have the calls and what the user is told in
their order. The stages of a run are read off the events of a run whose provider reports none of its own
(`Provider.silent`): they are a path of the protocol (`IsStagePath`), with the stages of every class that is planned.

All of this follows from what one class contributes (`outer_steps`, `stagesOf_steps`) by induction on the selected
classes (`outer_planningSteps`, `stagesOf_planningSteps`). Main result: `run_followsProtocol`.
-/

namespace FieldInjection

/-- A call of a provider, with what it is given. -/
inductive ProviderCall where
  | load (r : Request)
  | preview (p : Project) (log : EditLog)
  | commit (p : Project) (log : EditLog)
  deriving DecidableEq, Repr

namespace Provider

variable {σ : Type}

/-- A provider that keeps a record of its calls besides what it does, the first one first. -/
def recording (provider : Provider σ) : Provider (σ × List ProviderCall) where
  load r s :=
    let reply := provider.load r s.1
    ⟨reply.answer, (reply.state, s.2 ++ [.load r]), reply.events⟩
  preview p log s :=
    let reply := provider.preview p log s.1
    ⟨reply.answer, (reply.state, s.2 ++ [.preview p log]), reply.events⟩
  commit p log s :=
    let reply := provider.commit p log s.1
    ⟨reply.answer, (reply.state, s.2 ++ [.commit p log]), reply.events⟩

/-- A provider that does the same and reports nothing. -/
def silent (provider : Provider σ) : Provider σ where
  load r s := { provider.load r s with events := [] }
  preview p log s := { provider.preview p log s with events := [] }
  commit p log s := { provider.commit p log s with events := [] }

end Provider

/-- A step that is not only an event for the log. -/
def Step.isOuter : Step → Bool
  | .event _ => false
  | _ => true

/-- The stages that are entered in some steps. -/
def stagesOf (steps : List Step) : List Stage :=
  steps.filterMap fun
    | .event (.entered stage) => some stage
    | _ => none

/-! ## The protocol -/

/-- Stages of classes that are planned in turn: the imports of each are reconciled, and its members may be promoted
then. -/
inductive AreClassStages : List Stage → Prop where
  | nil : AreClassStages []
  | reconciled (name : String) {stages : List Stage} (h : AreClassStages stages) :
    AreClassStages (.reconciling name :: stages)
  | promoted (name : String) {stages : List Stage} (h : AreClassStages stages) :
    AreClassStages (.reconciling name :: .promoting name :: stages)

/-- The stages of a run, in the order in which they may follow each other. -/
inductive IsStagePath : List Stage → Prop where
  /-- Nothing is loaded. -/
  | notLoaded (root : Path) {last : Stage} (hlast : last = .done ∨ last = .failed) :
    IsStagePath [.starting root, last]
  /-- Classes are selected and planned, and nothing is committed. -/
  | notCommitted (root : Path) {stages : List Stage} (hclasses : AreClassStages stages) {last : Stage}
    (hlast : last = .done ∨ last = .failed) : IsStagePath (.starting root :: .selecting :: stages ++ [last])
  | committed (root : Path) {stages : List Stage} (hclasses : AreClassStages stages) (edits : Nat) {last : Stage}
    (hlast : last = .done ∨ last = .failed) :
    IsStagePath (.starting root :: .selecting :: stages ++ [.committing edits, last])

/-- Some classes with the logs that they are planned with, in turn after those of a plan. -/
def logsBefore (r : Request) (p : Plan) :
    List (SourceUnit × ClassDecl) → List ((SourceUnit × ClassDecl) × EditLog)
  | [] => []
  | x :: xs => (x, p.log) :: logsBefore r (p.add r x) xs

/-- The stages of a class that is planned with a log: none without constructor parameters, and promotion only if the
imports have been reconciled. -/
def classStages (r : Request) (x : (SourceUnit × ClassDecl) × EditLog) : List Stage :=
  let name := x.1.2.qualifiedName
  if x.1.2.parameters.isEmpty then []
  else if (ImportSurface.reconcile r.accessorModule r.accessorFunction x.1.1 x.2).isOk then
    [.reconciling name, .promoting name]
  else [.reconciling name]

/-- The stages of the classes of a project. -/
def projectStages [GlobReader] (r : Request) (p : Project) : List Stage :=
  (logsBefore r .empty (selectedClasses r p.units)).flatMap (classStages r)

section
variable {σ : Type} {r : Request}

/-- The project that a run loads with the plan of it, if there are both. -/
def planned? [GlobReader] (provider : Provider σ) (r : Request) (s : σ) : Option (Project × Plan) :=
  match (provider.load r s).answer with
  | .error _ => none
  | .ok p =>
    match (planProject r p).answer with
    | .error _ => none
    | .ok plan => some (p, plan)

/-- The call by which a plan is settled. -/
def settlingCall (r : Request) (p : Project) (plan : Plan) : ProviderCall :=
  if r.isDryRun then .preview p plan.log else .commit p plan.log

/-- That call as a step. -/
def settlingStep (r : Request) (plan : Plan) : Step := if r.isDryRun then .preview else .commit plan.log

/-- What the user is told of some failures. -/
def failureSteps (failures : List ClassFailure) : List Step := failures.map fun f => .progress (.classFailed f)

/-- What the user is told at the end. -/
def lastProgress : Except Failure Outcome → Progress
  | .ok outcome => .succeeded outcome.summary.inWords
  | .error failure => .failed failure.message

/-- The stage in which a run ends. -/
def lastStage : Except Failure Outcome → Stage
  | .ok _ => .done
  | .error _ => .failed

/-- The outcome of a run that has come to its end with a plan. -/
structure Outcome.IsOf (r : Request) (plan : Plan) (o : Outcome) : Prop where
  log_eq : o.log = plan.log
  modified_eq : o.summary.modified = plan.modified
  skipped_eq : o.summary.skipped = plan.skipped
  failures_eq : o.summary.failures = plan.failures
  success_iff : o.summary.success = true ↔ o.summary.failures = []
  code_eq : (RunStatus.ofSummary o.summary).code = if o.summary.failures = [] then 0 else 2
  plannedEdits_eq : o.summary.plannedEdits = o.log.size
  isDryRun_eq : o.summary.isDryRun = r.isDryRun
  filesWritten_of_dry : r.isDryRun = true → o.summary.filesWritten = []
  previews_of_not_dry : r.isDryRun = false → o.previews = []

/-- What the calls, the progress, the stages and the answer of a run are. -/
structure FollowsProtocol [GlobReader] (provider : Provider σ) (r : Request) (s : σ) : Prop where
  /-- The provider is called to load, and if there is a plan, to preview or to commit all of it. -/
  calls : (run provider.recording r (s, [])).state.2 =
    .load r :: ((planned? provider r s).map fun x => settlingCall r x.1 x.2).toList
  /-- The record of the calls changes nothing. -/
  recording : (run provider.recording r (s, [])).answer = (run provider r s).answer ∧
    (run provider.recording r (s, [])).steps = (run provider r s).steps ∧
    (run provider.recording r (s, [])).state.1 = (run provider r s).state
  /-- The calls and what the user is told, in their order. -/
  outer : (run provider r s).steps.filter Step.isOuter =
    .progress (.started "Migrating to call-based injection") :: .load ::
      ((planned? provider r s).map fun x => failureSteps x.2.failures ++ [settlingStep r x.2]).getD [] ++
      [.progress (lastProgress (run provider r s).answer)]
  /-- Every selected class is planned, and the failures are those of the refused ones in the order of selection. -/
  failures : ∀ p plan, planned? provider r s = some (p, plan) →
    (fates r p).map Prod.fst = selectedClasses r p.units ∧
      plan.failures = (fates r p).filterMap fun x =>
        x.2.refusal?.map fun refusal => .ofRefusal x.1.2.file x.1.2.name refusal
  /-- What a run reports with a provider that reports nothing it reports by itself with any. -/
  silent : (run provider.silent r s).answer = (run provider r s).answer ∧
    (run provider.silent r s).steps.Sublist (run provider r s).steps
  path : IsStagePath (stagesOf (run provider.silent r s).steps)
  stages : ∀ p plan, planned? provider r s = some (p, plan) → stagesOf (run provider.silent r s).steps =
    .starting r.root :: .selecting :: projectStages r p ++
      (if r.isDryRun then [] else [.committing plan.log.size]) ++ [lastStage (run provider r s).answer]
  /-- A run without a plan fails, and so does one that cannot preview or commit it. -/
  answer : ∀ o, (run provider r s).answer = .ok o → ∃ p plan, planned? provider r s = some (p, plan) ∧ o.IsOf r plan

variable {provider : Provider σ} {s : σ} {u : SourceUnit} {c : ClassDecl} {log : EditLog} {p : Plan}
  {xs : List (SourceUnit × ClassDecl)}

/-! ## One class -/

theorem filter_event (es : List Event) : (es.map Step.event).filter Step.isOuter = [] := by
  simp [Step.isOuter]

theorem stagesOf_append (ss ts : List Step) : stagesOf (ss ++ ts) = stagesOf ss ++ stagesOf ts := by
  simp [stagesOf]

/-- Of a class the user is told only that it fails. -/
theorem outer_steps (v : Verdict) : (v.steps r u c).filter Step.isOuter = failureSteps (v.failure? c).toList := by
  rcases v with _ | ⟨surface, members, _⟩ | refusal | ⟨surface, refusal, _⟩
  · rfl
  · rcases surface <;> rcases members <;> rfl
  · rfl
  · rcases surface <;> rfl

/-- A class enters the stages that its parameters and its imports call for. -/
theorem stagesOf_steps : stagesOf ((judge r log u c).steps r u c) = classStages r ((u, c), log) := by
  unfold judge classStages
  by_cases hempty : c.parameters.isEmpty = true
  · simp only [hempty, if_true]
    rfl
  · simp only [hempty, Bool.false_eq_true, if_false]
    rcases ImportSurface.reconcile r.accessorModule r.accessorFunction u log with refusal | ⟨amended, surface⟩
    · rfl
    · -- the second stage is entered whether or not the members are refused in it
      rcases hpromote : FieldPromotion.promote r.accessorFunction c amended with refusal | ⟨promoted, members⟩
      · rcases surface <;> simp [hpromote, Verdict.steps, stagesOf, Except.isOk, Except.toBool]
      · rcases surface <;> rcases members <;> simp [hpromote, Verdict.steps, stagesOf, Except.isOk, Except.toBool]

theorem refusal?_fate (v : Verdict) : v.fate.refusal? = v.refusal? := by
  rcases v with _ | _ | _ | _ <;> rfl

theorem failures_record (v : Verdict) : (p.record c v).failures = p.failures ++ (v.failure? c).toList := by
  rcases v with _ | _ | _ | _ <;> simp [Plan.record, Plan.refuse, Verdict.failure?, Verdict.refusal?]

/-! ## All classes -/

/-- The failures of a plan are those of its classes, in their order. -/
theorem failures_foldl (p : Plan) (xs : List (SourceUnit × ClassDecl)) : (xs.foldl (Plan.add r) p).failures =
    p.failures ++ (fatesFrom r p xs).filterMap fun x =>
      x.2.refusal?.map fun refusal => .ofRefusal x.1.2.file x.1.2.name refusal := by
  induction xs generalizing p with
  | nil => simp [fatesFrom]
  | cons x xs ih =>
    rw [List.foldl_cons, ih, Plan.add, failures_record, fatesFrom, List.filterMap_cons, refusal?_fate, ← Plan.add,
      List.append_assoc]
    unfold Verdict.failure?
    rcases (judge r p.log x.1 x.2).refusal? <;> rfl

theorem map_fst_fatesFrom (p : Plan) (xs : List (SourceUnit × ClassDecl)) : (fatesFrom r p xs).map Prod.fst = xs := by
  induction xs generalizing p with
  | nil => rfl
  | cons x xs ih => rw [fatesFrom, List.map_cons, ih]

/-- While classes are planned the user is told of the failures by which the plan grows. -/
theorem outer_planningSteps (p : Plan) (xs : List (SourceUnit × ClassDecl)) :
    failureSteps (xs.foldl (Plan.add r) p).failures =
      failureSteps p.failures ++ (planningSteps r p xs).filter Step.isOuter := by
  induction xs generalizing p with
  | nil => simp [planningSteps]
  | cons x xs ih =>
    rw [List.foldl_cons, ih, planningSteps, List.filter_append, outer_steps, ← List.append_assoc]
    congr 1
    rw [Plan.add, failures_record]
    simp [failureSteps]

/-- While classes are planned each enters its stages. -/
theorem stagesOf_planningSteps (p : Plan) (xs : List (SourceUnit × ClassDecl)) :
    stagesOf (planningSteps r p xs) = (logsBefore r p xs).flatMap (classStages r) := by
  induction xs generalizing p with
  | nil => rfl
  | cons x xs ih => rw [planningSteps, stagesOf_append, stagesOf_steps, ih, logsBefore, List.flatMap_cons]

theorem areClassStages_append {stages : List Stage} (x : (SourceUnit × ClassDecl) × EditLog)
    (h : AreClassStages stages) : AreClassStages (classStages r x ++ stages) := by
  unfold classStages
  split
  · exact h
  · split
    · exact .promoted _ h
    · exact .reconciled _ h

theorem areClassStages_projectStages [GlobReader] (p : Project) : AreClassStages (projectStages r p) := by
  unfold projectStages
  induction logsBefore r .empty (selectedClasses r p.units) with
  | nil => exact .nil
  | cons x xs ih => exact areClassStages_append x ih

/-! ## Settling a plan -/

section
variable {project : Project} {plan : Plan} {state : σ}

/-- A plan is settled by one call. -/
theorem outer_settle : (settle provider r project plan state).steps.filter Step.isOuter = [settlingStep r plan] := by
  unfold settle settlingStep
  rcases r.isDryRun
  · -- the announcement of a commit is an event
    rcases hcommit : (provider.commit project plan.log state).answer <;>
      simp [hcommit, List.filter_cons, Step.isOuter]
  · simp [List.filter_cons, Step.isOuter]

theorem stagesOf_settle : stagesOf (settle provider.silent r project plan state).steps =
    if r.isDryRun then [] else [.committing plan.log.size] := by
  unfold settle Provider.silent
  rcases r.isDryRun
  · rcases hcommit : (provider.commit project plan.log state).answer <;> simp [hcommit, stagesOf]
  · simp [stagesOf]

theorem isOf_settle {o : Outcome} (h : (settle provider r project plan state).answer = .ok o) : o.IsOf r plan := by
  have hsuccess : plan.failures.isEmpty = true ↔ plan.failures = [] := List.isEmpty_iff
  unfold settle at h
  rcases hdry : r.isDryRun
  · rcases hcommit : (provider.commit project plan.log state).answer with failure | written <;>
      simp only [hdry, hcommit, Except.map, Bool.false_eq_true, if_false] at h
    · cases h
    · cases h
      refine ⟨rfl, rfl, rfl, rfl, hsuccess, ?_, rfl, hdry.symm, ?_, fun _ => rfl⟩
      · rcases plan.failures <;> rfl
      · simp [hdry]
  · rcases hpreview : (provider.preview project plan.log state).answer with failure | previews <;>
      simp only [hdry, hpreview, Except.map, if_true] at h
    · cases h
    · cases h
      refine ⟨rfl, rfl, rfl, rfl, hsuccess, ?_, rfl, hdry.symm, fun _ => rfl, ?_⟩
      · rcases plan.failures <;> rfl
      · simp [hdry]

theorem settle_recording (calls : List ProviderCall) :
    settle provider.recording r project plan (state, calls) =
      ⟨(settle provider r project plan state).answer,
        ((settle provider r project plan state).state, calls ++ [settlingCall r project plan]),
        (settle provider r project plan state).steps⟩ := by
  unfold settle settlingCall
  rcases r.isDryRun <;> rfl

theorem settle_silent : (settle provider.silent r project plan state).answer =
      (settle provider r project plan state).answer ∧
    (settle provider.silent r project plan state).steps.Sublist (settle provider r project plan state).steps := by
  unfold settle
  rcases r.isDryRun
  · refine ⟨rfl, ?_⟩
    simp only [Bool.false_eq_true, if_false, List.cons_append]
    exact ((List.nil_sublist _).append (List.Sublist.refl _)).cons_cons _ |>.cons_cons _
  · exact ⟨rfl, (List.nil_sublist _).cons_cons _⟩

end

/-! ## The run -/

/-- A run tells its beginning and its end around what it does. -/
theorem run_eq [GlobReader] : run provider r s =
    ⟨(execute provider r s).answer, (execute provider r s).state,
      .event (.entered (.starting r.root)) :: .progress (.started "Migrating to call-based injection") ::
        (execute provider r s).steps ++
        [.event (.entered (lastStage (execute provider r s).answer)),
          .progress (lastProgress (execute provider r s).answer)]⟩ := by
  unfold run
  rcases h : (execute provider r s).answer <;> simp [h, lastStage, lastProgress]

theorem planned?_eq_some_iff [GlobReader] {project : Project} {plan : Plan} : planned? provider r s = some (project, plan) ↔
    (provider.load r s).answer = .ok project ∧ (planProject r project).answer = .ok plan := by
  unfold planned?
  rcases hload : (provider.load r s).answer with failure | project'
  · simp
  · rcases hplan : (planProject r project').answer with failure | plan'
    · have hne : Except.ok project' = Except.ok (ε := Failure) project →
          (planProject r project).answer ≠ .ok plan := by
        intro heq
        cases heq
        simp [hplan]
      simpa [hplan] using hne
    · constructor
      · intro heq
        simp only [hplan, Option.some.injEq, Prod.mk.injEq] at heq
        obtain ⟨rfl, rfl⟩ := heq
        exact ⟨rfl, hplan⟩
      · rintro ⟨heq, hplan'⟩
        cases heq
        simp [hplan']

/-- A plan that has been made is settled. -/
theorem execute_eq_settle [GlobReader] {project : Project} {plan : Plan} (h : planned? provider r s = some (project, plan)) :
    execute provider r s =
      let settled := settle provider r project plan (provider.load r s).state
      ⟨settled.answer, settled.state,
        .load :: (provider.load r s).events.map .event ++
          .event (.migrationLoaded project.units.length) :: (planProject r project).steps ++ settled.steps⟩ := by
  obtain ⟨hload, hplan⟩ := planned?_eq_some_iff.mp h
  unfold execute
  simp only [hload, hplan]

/-- Without a plan there is nothing more than events, and a failure. -/
theorem execute_eq_error [GlobReader] (h : planned? provider r s = none) : ∃ failure, ∃ more : List Event,
    execute provider r s = ⟨.error failure, (provider.load r s).state,
      .load :: (provider.load r s).events.map .event ++ more.map .event⟩ ∧
    (stagesOf (more.map .event) = [] ∨ stagesOf (more.map .event) = [.selecting]) := by
  unfold planned? at h
  unfold execute
  rcases hload : (provider.load r s).answer with failure | project
  · exact ⟨failure, [], by simp [hload], Or.inl rfl⟩
  · rcases hplan : (planProject r project).answer with failure | plan
    · -- the globs are not valid, which is found out once classes are to be selected
      have hsteps : (planProject r project).steps = [.event (.entered .selecting)] := by
        unfold planProject at hplan ⊢
        rcases hs : Selector.ofRequest r with failure' | selector
        · rfl
        · simp [hs] at hplan
      refine ⟨failure, [.migrationLoaded project.units.length, .entered .selecting], ?_, Or.inr rfl⟩
      simp [hload, hplan, hsteps]
    · simp [hload, hplan] at h

theorem planProject_steps [GlobReader] {project : Project} {plan : Plan} (h : (planProject r project).answer = .ok plan) :
    (planProject r project).steps.filter Step.isOuter = failureSteps plan.failures ∧
      stagesOf (planProject r project).steps = .selecting :: projectStages r project := by
  obtain ⟨⟨selector, hs⟩, hplan⟩ := planProject_eq_ok_iff.mp h
  have hsteps : (planProject r project).steps = .event (.entered .selecting) ::
      .event (.classesSelected (selectedClasses r project.units).length) ::
        planningSteps r .empty (selectedClasses r project.units) := by
    simp only [planProject, hs, select_eq hs]
  have houter := outer_planningSteps (r := r) .empty (selectedClasses r project.units)
  rw [hsteps]
  refine ⟨?_, ?_⟩
  · rw [hplan]
    show (planningSteps r .empty (selectedClasses r project.units)).filter Step.isOuter = _
    exact (houter.trans (List.nil_append _)).symm
  · show .selecting :: stagesOf (planningSteps r .empty (selectedClasses r project.units)) = _
    rw [stagesOf_planningSteps, projectStages]

/-! ### With a plan -/

section
variable [GlobReader] {project : Project} {plan : Plan} (h : planned? provider r s = some (project, plan))
include h

theorem outer_of_planned : (execute provider r s).steps.filter Step.isOuter =
    .load :: failureSteps plan.failures ++ [settlingStep r plan] := by
  obtain ⟨-, hplan⟩ := planned?_eq_some_iff.mp h
  rw [execute_eq_settle h]
  show ((Step.load :: (provider.load r s).events.map Step.event) ++
    (Step.event (.migrationLoaded project.units.length) :: (planProject r project).steps) ++
      (settle provider r project plan (provider.load r s).state).steps).filter Step.isOuter = _
  rw [List.filter_append, List.filter_append, outer_settle]
  show (Step.load :: ((provider.load r s).events.map Step.event).filter Step.isOuter) ++
    (planProject r project).steps.filter Step.isOuter ++ _ = _
  rw [filter_event, (planProject_steps hplan).1]
  rfl

theorem stages_of_planned : stagesOf (execute provider.silent r s).steps =
    .selecting :: projectStages r project ++ if r.isDryRun then [] else [.committing plan.log.size] := by
  obtain ⟨-, hplan⟩ := planned?_eq_some_iff.mp h
  have hsilent : planned? provider.silent r s = some (project, plan) := h
  rw [execute_eq_settle hsilent]
  show stagesOf ((Step.load :: []) ++
    (Step.event (.migrationLoaded project.units.length) :: (planProject r project).steps) ++
      (settle provider.silent r project plan (provider.load r s).state).steps) = _
  rw [stagesOf_append, stagesOf_append, stagesOf_settle]
  show [] ++ stagesOf (planProject r project).steps ++ _ = _
  rw [(planProject_steps hplan).2]
  rfl

end

/-- The stages of a run around those of what it does. -/
theorem stagesOf_run [GlobReader] : stagesOf (run provider r s).steps = .starting r.root ::
    stagesOf (execute provider r s).steps ++ [lastStage (execute provider r s).answer] := by
  rw [run_eq]
  show Stage.starting r.root :: stagesOf ((execute provider r s).steps ++ _) = _
  rw [stagesOf_append]
  rfl

theorem answer_silent [GlobReader] : (execute provider.silent r s).answer = (execute provider r s).answer ∧
    (execute provider.silent r s).steps.Sublist (execute provider r s).steps := by
  rcases h : planned? provider r s with _ | ⟨project, plan⟩
  · -- the two go the same way, and differ only in the events of the load
    unfold planned? at h
    unfold execute Provider.silent
    rcases hload : (provider.load r s).answer with failure | project
    · simp [hload]
    · rcases hplan : (planProject r project).answer with failure | plan
      · simp only [hload, hplan]
        exact ⟨trivial, ((List.nil_sublist _).cons_cons _).append (List.Sublist.refl _)⟩
      · simp [hload, hplan] at h
  · have hsilent : planned? provider.silent r s = some (project, plan) := h
    rw [execute_eq_settle h, execute_eq_settle hsilent]
    obtain ⟨hanswer, hsteps⟩ : (settle provider.silent r project plan (provider.load r s).state).answer =
        (settle provider r project plan (provider.load r s).state).answer ∧ _ := settle_silent
    exact ⟨hanswer, (((List.nil_sublist _).cons_cons _).append (List.Sublist.refl _)).append hsteps⟩

/-- Recording the calls changes nothing but the record. -/
theorem execute_recording [GlobReader] : execute provider.recording r (s, []) =
    ⟨(execute provider r s).answer,
      ((execute provider r s).state,
        .load r :: ((planned? provider r s).map fun x => settlingCall r x.1 x.2).toList),
      (execute provider r s).steps⟩ := by
  rcases h : planned? provider r s with _ | ⟨project, plan⟩
  · unfold planned? at h
    unfold execute Provider.recording
    rcases hload : (provider.load r s).answer with failure | project
    · simp [hload]
    · rcases hplan : (planProject r project).answer with failure | plan
      · simp [hload, hplan]
      · simp [hload, hplan] at h
  · have hrecording : planned? provider.recording r (s, []) = some (project, plan) := h
    rw [execute_eq_settle h, execute_eq_settle hrecording]
    show (let settled := settle provider.recording r project plan ((provider.load r s).state, [.load r])
      (⟨settled.answer, settled.state, _ ++ settled.steps⟩ : Transcript (σ × List ProviderCall) Outcome)) = _
    rw [settle_recording]
    rfl

/--
**The protocol of a run**: whatever a provider answers, it is called once to load, and once more if there is a plan, to
preview all of its log in a dry run and to commit it otherwise. The user is told the beginning, every failure of a
class in the order of selection, and the end. The stages are a path of the protocol, in which the classes with
constructor parameters have their imports reconciled and go on only if that succeeds. The answer agrees with the plan
and with the kind of the run.
-/
theorem run_followsProtocol [GlobReader] (provider : Provider σ) (r : Request) (s : σ) : FollowsProtocol provider r s := by
  have hlast : lastStage (execute provider r s).answer = .done ∨ lastStage (execute provider r s).answer = .failed := by
    rcases (execute provider r s).answer with failure | outcome
    · exact Or.inr rfl
    · exact Or.inl rfl
  have hstages : stagesOf (run provider.silent r s).steps = .starting r.root ::
      stagesOf (execute provider.silent r s).steps ++ [lastStage (execute provider r s).answer] := by
    rw [stagesOf_run, answer_silent.1]
  refine {
    calls := by rw [run_eq, execute_recording]
    recording := by
      rw [run_eq, run_eq, execute_recording]
      exact ⟨rfl, rfl, rfl⟩
    outer := ?_
    failures := ?_
    silent := ?_
    path := ?_
    stages := ?_
    answer := ?_ }
  · -- the calls and what the user is told, without the events, which never count here
    rw [run_eq]
    show Step.progress _ :: ((execute provider r s).steps ++ _).filter Step.isOuter = _
    rw [List.filter_append]
    rcases h : planned? provider r s with _ | ⟨project, plan⟩
    · obtain ⟨failure, more, hexecute, -⟩ := execute_eq_error h
      rw [hexecute]
      show _ :: ((Step.load :: (provider.load r s).events.map Step.event) ++ more.map Step.event).filter Step.isOuter ++
        _ = _
      rw [List.filter_append, filter_event]
      show _ :: (Step.load :: ((provider.load r s).events.map Step.event).filter Step.isOuter ++ []) ++ _ = _
      rw [filter_event]
      rfl
    · rw [outer_of_planned h]
      simp [Step.isOuter]
  · intro p plan h
    obtain ⟨-, hplan⟩ := planned?_eq_some_iff.mp h
    obtain ⟨-, rfl⟩ := planProject_eq_ok_iff.mp hplan
    exact ⟨map_fst_fatesFrom _ _, failures_foldl _ _⟩
  · -- a silent provider leaves out its own events and nothing else
    rw [run_eq, run_eq, answer_silent.1]
    exact ⟨rfl, ((answer_silent.2.append (List.Sublist.refl _)).cons_cons _).cons_cons _⟩
  · rw [hstages]
    rcases h : planned? provider r s with _ | ⟨project, plan⟩
    · -- the run ends before the files are there, or before their classes are selected
      have hsilent : planned? provider.silent r s = none := h
      obtain ⟨failure, more, hexecute, hmore⟩ := execute_eq_error hsilent
      have hnone : stagesOf (execute provider.silent r s).steps = stagesOf (more.map Step.event) := by
        rw [hexecute]
        rfl
      rw [hnone]
      rcases hmore with hmore | hmore <;> rw [hmore]
      · exact .notLoaded r.root hlast
      · exact .notCommitted r.root .nil hlast
    · rw [stages_of_planned h]
      rcases r.isDryRun
      · have hpath := IsStagePath.committed r.root (areClassStages_projectStages (r := r) project) plan.log.size hlast
        simpa using hpath
      · have hpath := IsStagePath.notCommitted r.root (areClassStages_projectStages (r := r) project) hlast
        simpa using hpath
  · intro p plan h
    rw [hstages, stages_of_planned h, run_eq]
    simp
  · intro o ho
    rw [run_eq] at ho
    rcases h : planned? provider r s with _ | ⟨project, plan⟩
    · obtain ⟨failure, more, hexecute, -⟩ := execute_eq_error h
      rw [hexecute] at ho
      cases ho
    · -- the answer is that of settling the plan
      rw [execute_eq_settle h] at ho
      exact ⟨project, plan, rfl, isOf_settle ho⟩

end

end FieldInjection
