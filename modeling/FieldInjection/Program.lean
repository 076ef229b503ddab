import FieldInjection.CommandLine.Reading
import FieldInjection.CommandLine.Usage
import FieldInjection.Journal.Filter
import FieldInjection.Journal.Line
import FieldInjection.Migration.Workspace
import FieldInjection.Settings.Loading

/-!
# The program

What the program does with its arguments on a disk: it reads its flags, loads its settings, and prints them or
runs the migration that they ask for. It prints to standard output what it was asked for, and to standard error
its log and what went wrong, and ends with an exit code.
-/

namespace FieldInjection

/-- What is left when the flags have been carried out. -/
structure Execution where
  answer : Except Failure RunStatus
  output : String
  disk : Disk
  events : List Event

namespace Flags

/-- The settings that the flags make of the loaded ones, if these are valid. -/
def configure (f : Flags) (s : Surroundings) (d : Disk) : Except Failure LoadedSettings :=
  match s.loadSettings d f.config with
  | .error failure => .error failure
  | .ok loaded =>
    let settings := f.override loaded.settings
    match settings.validate with
    | .error failure => .error failure
    | .ok _ => .ok { loaded with settings := settings }

def report (f : Flags) (r : Request) (o : Outcome) : String :=
  if f.asJson then Report.json r o else Report.text r o

/-- Prints the settings, or runs the migration between its banner and its report. -/
def execute (f : Flags) (s : Settings) (d : Disk) : Execution :=
  if f.printsSettings then ⟨.ok .success, s.toToml, d, []⟩
  else
    let r := s.toRequest
    let banner := if f.asJson then "" else Report.banner r
    let migrated := run Workspace.provider r d
    let events := eventsOf (fun told => some (.progress told)) migrated.steps
    match migrated.answer with
    | .error failure => ⟨.error failure, banner, migrated.state, events⟩
    | .ok o => ⟨.ok (.ofSummary o.summary), banner ++ f.report r o, migrated.state, events⟩

end Flags

/-- What is left when the program has ended. -/
structure Exit where
  code : Nat
  output : String
  /-- The lines on standard error. -/
  errorLines : List String
  disk : Disk

namespace Program

/-- The variable that filters the log. -/
def filterVariable : String := Environment.variablePrefix ++ "LOG"

def errorLine (text : String) : String := "error: " ++ text

def failureCode : Nat := 1

/-- The exit code of a misuse of the command line. -/
def misuseCode : Nat := 2

/-- The event for where the settings come from. -/
def sourceEvent : Option Path → Event
  | some path => .configurationLoaded path
  | none => .configurationDefaulted

/-- Carries out the flags with a log. -/
def runLogged (f : Flags) (s : Surroundings) (loaded : LoadedSettings) (level : LogLevel) (d : Disk) :
    Exit :=
  let logging := loaded.settings.logging
  let filter := LogFilter.choose (s.environment.lookup filterVariable) logging.level
  let lines (events : List Event) : List String :=
    (events.filter filter.lets).map (Event.line logging.asJson)
  -- the log says first how it was set up, and last why the program gave up
  let executed := f.execute loaded.settings d
  let events := .loggingStarted level :: sourceEvent loaded.source :: executed.events
  match executed.answer with
  | .ok status => ⟨status.code, executed.output, lines events, executed.disk⟩
  | .error failure =>
    ⟨failureCode, executed.output,
      lines (events ++ [.aborted failure.message]) ++ [errorLine failure.message], executed.disk⟩

/-- Loads the settings and carries out the flags. -/
def start (f : Flags) (s : Surroundings) (d : Disk) : Exit :=
  let refuse (failure : Failure) : Exit := ⟨failureCode, "", [errorLine failure.message], d⟩
  match f.configure s d with
  | .error failure => refuse failure
  | .ok loaded =>
    match readLogLevel loaded.settings.logging.level with
    | .error failure => refuse failure
    | .ok level => runLogged f s loaded level d

/-- Runs the program with the arguments behind its name. -/
def run (arguments : List String) (s : Surroundings) (d : Disk) : Exit :=
  match CommandLine.read arguments with
  | .error .help => ⟨0, CommandLine.help, [], d⟩
  | .error .version => ⟨0, CommandLine.versionLine, [], d⟩
  | .error (.misuse misuse) => ⟨misuseCode, "", [errorLine misuse.message], d⟩
  | .ok flags => start flags s d

end Program

end FieldInjection
