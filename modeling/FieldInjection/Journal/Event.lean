import FieldInjection.Failure

/-!
# Events

What a run reports about itself while it goes on: progress for its user, and events for its log. An event
has a level, a target (the part of the program it comes from), a message and fields.
-/

namespace FieldInjection

/-- How important an event is. -/
inductive LogLevel where
  | trace
  | debug
  | info
  | warn
  | error
  deriving DecidableEq, Repr

namespace LogLevel

def name : LogLevel → String
  | trace => "TRACE"
  | debug => "DEBUG"
  | info => "INFO"
  | warn => "WARN"
  | error => "ERROR"

/-- The place of a level in the order, the least important first. -/
def rank : LogLevel → Nat
  | trace => 0
  | debug => 1
  | info => 2
  | warn => 3
  | error => 4

end LogLevel

/-- What the user of a run is told. -/
inductive Progress where
  | started (message : String)
  | classFailed (failure : ClassFailure)
  | succeeded (message : String)
  | failed (message : String)
  deriving DecidableEq, Repr

/-- The stages of a migration. -/
inductive Stage where
  | starting (root : Path)
  | selecting
  | reconciling (className : String)
  | promoting (className : String)
  | committing (edits : Nat)
  | done
  | failed
  deriving DecidableEq, Repr

def Stage.name : Stage → String
  | starting _ => "init"
  | selecting => "selecting"
  | reconciling _ => "reconciling"
  | promoting _ => "rewriting"
  | committing _ => "committing"
  | done => "done"
  | failed => "failed"

/-- Something worth a line in the log. Classes are given by their qualified names. -/
inductive Event where
  | entered (stage : Stage)
  | classesSelected (count : Nat)
  | classSkipped (className : String)
  | importPlanned (file : Path) (moduleName : String)
  | fieldsPlanned (className : String) (fields : Nat)
  | classLeft (className reason : String)
  | migrationLoaded (files : Nat)
  | migrationCommitted (files : Nat)
  | filesDiscovered (root : Path) (files : Nat)
  | syntaxErrors (file : Path)
  | projectLoaded (root : Path) (files classes : Nat)
  | fileReplaced (file : Path)
  | progress (step : Progress)
  | configurationLoaded (path : Path)
  | configurationDefaulted
  | loggingStarted (level : LogLevel)
  | aborted (message : String)
  deriving DecidableEq, Repr

/-- The value of an event's field. -/
inductive FieldValue where
  | text (value : String)
  | number (value : Nat)
  deriving DecidableEq, Repr

def FieldValue.render : FieldValue → String
  | text value => value
  | number value => toString value

/-- What is reported of a stage besides its name. -/
def Stage.details : Stage → List (String × FieldValue)
  | starting root => [("root", .text root.text)]
  | reconciling className => [("class", .text className)]
  | promoting className => [("class", .text className)]
  | committing edits => [("edits", .number edits)]
  | _ => []

/-- The name of a kind of refusal. -/
def Refusal.Kind.name : Refusal.Kind → String
  | malformedParameter => "MalformedParameter"
  | unsupportedConstructor => "UnsupportedConstructor"
  | missingImportSurface => "MissingImportSurface"

namespace Event

/-- How important an event is. -/
def level : Event → LogLevel
  | classesSelected _ | migrationLoaded _ | migrationCommitted _ | projectLoaded .. => .info
  | configurationLoaded _ | progress (.started _) | progress (.succeeded _) => .info
  | classLeft .. | syntaxErrors _ | progress (.classFailed _) => .warn
  | progress (.failed _) | aborted _ => .error
  | _ => .debug

/-- The part of the program an event comes from. -/
def target : Event → String
  | importPlanned .. => "inject_it_application::domain_services::imports"
  | fieldsPlanned .. => "inject_it_application::domain_services::rewriter"
  | filesDiscovered .. => "inject_it_providers::project::discovery"
  | syntaxErrors _ => "inject_it_providers::language::typescript"
  | projectLoaded .. | fileReplaced _ => "inject_it_providers::project::filesystem"
  | progress _ => "inject_it_infrastructure::progress"
  | configurationLoaded _ | configurationDefaulted | loggingStarted _ =>
    "inject_it_infrastructure::logging"
  | aborted _ => "inject_it"
  | _ => "inject_it_application::use_cases::migration"

/-- The message of an event; a change of stage has none. -/
def message? : Event → Option String
  | entered _ => none
  | classesSelected _ => some "Selected classes"
  | classSkipped _ => some "No constructor parameters, skipping"
  | importPlanned .. => some "Planned accessor import"
  | fieldsPlanned .. => some "Planned member rewrite"
  | classLeft .. => some "Class left unmodified"
  | migrationLoaded _ => some "Loaded project"
  | migrationCommitted _ => some "Committed edits"
  | filesDiscovered .. => some "Discovered files"
  | syntaxErrors _ => some "Syntax errors, parsed with recovery"
  | projectLoaded .. => some "Project loaded"
  | fileReplaced _ => some "Replaced"
  | progress (.started message) => some message
  | progress (.classFailed failure) => some failure.reason
  | progress (.succeeded message) => some message
  | progress (.failed message) => some message
  | configurationLoaded path => some ("Configuration loaded from " ++ path.text)
  | configurationDefaulted => some "No configuration file found, using defaults and environment"
  | loggingStarted level => some ("Logging initialized with level: " ++ level.name)
  | aborted _ => some "Migration aborted"

/-- The fields of an event, in order. -/
def fields : Event → List (String × FieldValue)
  | entered stage => ("state", .text stage.name) :: stage.details
  | classesSelected n => [("classes", .number n)]
  | classSkipped c => [("class", .text c)]
  | importPlanned file moduleName => [("file", .text file.text), ("module", .text moduleName)]
  | fieldsPlanned c n => [("class", .text c), ("fields", .number n)]
  | classLeft c reason => [("class", .text c), ("reason", .text reason)]
  | migrationLoaded n => [("files", .number n)]
  | migrationCommitted n => [("files", .number n)]
  | filesDiscovered root n => [("root", .text root.text), ("files", .number n)]
  | syntaxErrors file => [("file", .text file.text)]
  | projectLoaded root files classes =>
    [("root", .text root.text), ("files", .number files), ("classes", .number classes)]
  | fileReplaced file => [("file", .text file.text)]
  | progress (.classFailed f) =>
    [("file", .text f.file.text), ("class", .text f.className), ("kind", .text f.kind.name)]
  | aborted message => [("error", .text message)]
  | _ => []

end Event

end FieldInjection
