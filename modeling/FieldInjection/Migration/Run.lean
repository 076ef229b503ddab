import FieldInjection.Migration.Plan

/-!
# Running a migration

A run loads a project, plans its migration, and then either previews the log or commits it. Loading,
previewing and committing belong to a provider, of which nothing is assumed but that it acts on a state of
some kind.
-/

namespace FieldInjection

/-- The answer of a provider, with the state it leaves and the events it reports. -/
structure Reply (σ α : Type) where
  answer : Except Failure α
  state : σ
  events : List Event

/-- Where a project comes from and where its edits go. -/
structure Provider (σ : Type) where
  load : Request → σ → Reply σ Project
  preview : Project → EditLog → σ → Reply σ (List FilePreview)
  commit : Project → EditLog → σ → Reply σ (List Path)

/-- Everything that can be seen of a run. -/
structure Transcript (σ α : Type) where
  answer : Except Failure α
  state : σ
  steps : List Step

/-- The previews of a log: every file with edits before and after them. A file that is not part of the
project or whose edits conflict ends it, with that file's edits as those not persisted. -/
def previewLog (p : Project) (log : EditLog) : Except Failure (List FilePreview) :=
  log.files.mapM fun file =>
    let unpersisted := (log.forFile file).map PlannedEdit.describe
    match p.unit? file with
    | none => .error (.commit (file.text ++ " is not part of the project") unpersisted none)
    | some u =>
      match log.apply file u.text with
      | .error conflict =>
        .error (.commit ("conflicting edits in " ++ file.text) unpersisted (some (.conflict conflict)))
      | .ok after => .ok ⟨file, u.text, after⟩

variable {σ : Type}

/-- Previews or commits a plan. -/
def settle (provider : Provider σ) (r : Request) (p : Project) (plan : Plan) (s : σ) :
    Transcript σ Outcome :=
  let summary (written : List Path) : Summary :=
    ⟨plan.modified, plan.skipped, plan.failures, plan.log.size, written, r.isDryRun,
      plan.failures.isEmpty⟩
  if r.isDryRun then
    let reply := provider.preview p plan.log s
    ⟨reply.answer.map fun previews => ⟨summary [], plan.log, previews⟩, reply.state,
      .preview :: reply.events.map .event⟩
  else
    let reply := provider.commit p plan.log s
    -- a commit that fails is not announced
    let committed : List Step :=
      match reply.answer with
      | .error _ => []
      | .ok written => [.event (.migrationCommitted written.length)]
    ⟨reply.answer.map fun written => ⟨summary written, plan.log, []⟩, reply.state,
      .event (.entered (.committing plan.log.size)) :: .commit plan.log ::
        reply.events.map .event ++ committed⟩

/-- Loads a project, plans its migration, and settles the plan. -/
def execute [GlobReader] (provider : Provider σ) (r : Request) (s : σ) : Transcript σ Outcome :=
  let loaded := provider.load r s
  let loading : List Step := .load :: loaded.events.map .event
  match loaded.answer with
  | .error failure => ⟨.error failure, loaded.state, loading⟩
  | .ok p =>
    let planning := planProject r p
    let steps := loading ++ .event (.migrationLoaded p.units.length) :: planning.steps
    match planning.answer with
    | .error failure => ⟨.error failure, loaded.state, steps⟩
    | .ok plan =>
      let settled := settle provider r p plan loaded.state
      ⟨settled.answer, settled.state, steps ++ settled.steps⟩

/-- Runs a migration from beginning to end. -/
def run [GlobReader] (provider : Provider σ) (r : Request) (s : σ) : Transcript σ Outcome :=
  let executed := execute provider r s
  let ending : List Step :=
    match executed.answer with
    | .ok outcome => [.event (.entered .done), .progress (.succeeded outcome.summary.inWords)]
    | .error failure => [.event (.entered .failed), .progress (.failed failure.message)]
  ⟨executed.answer, executed.state,
    .event (.entered (.starting r.root)) ::
      .progress (.started "Migrating to call-based injection") :: executed.steps ++ ending⟩

/-- The events of some steps; what a user is told counts as one where `told` makes it one. -/
def eventsOf (told : Progress → Option Event) (steps : List Step) : List Event :=
  steps.filterMap fun
    | .event e => some e
    | .progress p => told p
    | _ => none

/-- What a user is told in some steps. -/
def progressOf (steps : List Step) : List Progress :=
  steps.filterMap fun
    | .progress p => some p
    | _ => none

end FieldInjection
