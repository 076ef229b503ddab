import FieldInjection.ImportSurface
import FieldInjection.Journal.Event
import FieldInjection.FieldPromotion
import FieldInjection.Migration.Selection

/-!
# Planning a migration

The selected classes are planned one after the other into one log. For each of them the import surface of
its file is reconciled first and its parameters are promoted then; if either is refused, the log is cut back
to its length before the class, and the refusal is recorded.

`judge` decides on one class, `Plan.add` records the decision, and `Plan.ofClasses` folds that over all
selected classes. What is reported on the way is computed apart from the plan.
-/

namespace FieldInjection

/-- A step of a run that can be seen from outside. -/
inductive Step where
  | event (event : Event)
  | progress (progress : Progress)
  | load
  | preview
  | commit (log : EditLog)
  deriving DecidableEq, Repr

/-- The edits for the classes so far, and what became of them. -/
structure Plan where
  log : EditLog
  modified : Nat
  skipped : Nat
  failures : List ClassFailure
  deriving DecidableEq, Repr

/-- What becomes of one class. -/
inductive Verdict where
  /-- The class has no constructor parameters. -/
  | skipped
  /-- The class is migrated, and the log has grown to this one. -/
  | migrated (surface : ImportSurface.Outcome) (members : FieldPromotion.Outcome) (log : EditLog)
  /-- The import surface was refused. -/
  | importRefused (refusal : Refusal)
  /-- The import surface was found or amended, which has made the log grow to this one, and the members were
  refused. -/
  | membersRefused (surface : ImportSurface.Outcome) (refusal : Refusal) (log : EditLog)
  deriving DecidableEq, Repr

/-- Decides on a class. -/
def judge (r : Request) (log : EditLog) (u : SourceUnit) (c : ClassDecl) : Verdict :=
  if c.parameters.isEmpty then .skipped
  else
    match ImportSurface.reconcile r.accessorModule r.accessorFunction u log with
    | .error refusal => .importRefused refusal
    | .ok (amended, surface) =>
      match FieldPromotion.promote r.accessorFunction c amended with
      -- the edit of the import statement is in the log by now
      | .error refusal => .membersRefused surface refusal amended
      | .ok (promoted, members) => .migrated surface members promoted

/-- Why the class is left as it was, if it is. -/
def Verdict.refusal? : Verdict → Option Refusal
  | importRefused refusal => some refusal
  | membersRefused _ refusal _ => some refusal
  | _ => none

/-- The report of the class's failure, if it fails. -/
def Verdict.failure? (v : Verdict) (c : ClassDecl) : Option ClassFailure :=
  v.refusal?.map fun refusal => .ofRefusal c.file c.name refusal

namespace Plan

def empty : Plan := ⟨.empty, 0, 0, []⟩

/-- Records the refusal of a class for which the log has grown to the given one: it is cut back to its
length before the class. -/
def refuse (p : Plan) (c : ClassDecl) (refusal : Refusal) (grown : EditLog) : Plan :=
  { p with
    log := grown.truncate p.log.size
    failures := p.failures ++ [.ofRefusal c.file c.name refusal] }

def record (p : Plan) (c : ClassDecl) : Verdict → Plan
  | .skipped => { p with skipped := p.skipped + 1 }
  | .migrated _ _ log => { p with log, modified := p.modified + 1 }
  -- nothing has been planned yet, so there is nothing to cut off
  | .importRefused refusal => p.refuse c refusal p.log
  | .membersRefused _ refusal grown => p.refuse c refusal grown

def add (r : Request) (p : Plan) (x : SourceUnit × ClassDecl) : Plan :=
  p.record x.2 (judge r p.log x.1 x.2)

def ofClasses (r : Request) (xs : List (SourceUnit × ClassDecl)) : Plan := xs.foldl (add r) empty

end Plan

def Verdict.steps (r : Request) (u : SourceUnit) (c : ClassDecl) (v : Verdict) : List Step :=
  let amended : ImportSurface.Outcome → List Step
    | .alreadyImported => []
    | .amended => [.event (.importPlanned u.path r.accessorModule)]
  let reconciling : Step := .event (.entered (.reconciling c.qualifiedName))
  let promoting : Step := .event (.entered (.promoting c.qualifiedName))
  let left (refusal : Refusal) : List Step :=
    [.event (.classLeft c.qualifiedName refusal.message),
      .progress (.classFailed (.ofRefusal c.file c.name refusal))]
  match v with
  | .skipped => [.event (.classSkipped c.qualifiedName)]
  | .migrated surface members _ =>
    let planned : List Step :=
      match members with
      | .unchanged => []
      | .promoted n => [.event (.fieldsPlanned c.name n)]
    reconciling :: amended surface ++ promoting :: planned
  | .importRefused refusal => reconciling :: left refusal
  | .membersRefused surface refusal _ => reconciling :: amended surface ++ promoting :: left refusal

/-- What is reported while some classes are planned, after those of a plan. -/
def planningSteps (r : Request) (p : Plan) : List (SourceUnit × ClassDecl) → List Step
  | [] => []
  | x :: xs => (judge r p.log x.1 x.2).steps r x.1 x.2 ++ planningSteps r (p.add r x) xs

/-- A plan or the failure to make one, with what was reported. -/
structure Planning where
  answer : Except Failure Plan
  steps : List Step

/-- Plans the migration of a project. -/
def planProject [GlobReader] (r : Request) (p : Project) : Planning :=
  let selecting : Step := .event (.entered .selecting)
  match Selector.ofRequest r with
  | .error failure => ⟨.error failure, [selecting]⟩
  | .ok selector =>
    let classes := selector.select p
    ⟨.ok (.ofClasses r classes),
      selecting :: .event (.classesSelected classes.length) :: planningSteps r .empty classes⟩

end FieldInjection
