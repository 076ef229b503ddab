/-!
# The options of the command line

Every option has a long name, and some have a short one. Those with a name for their value take one; of
these, the globs may be given again and again. The root of the project is the one argument without a name.
-/

namespace FieldInjection.CommandLine

/-- What may stand on the command line. -/
inductive Argument where
  | root
  | config
  | including
  | excluding
  | classPattern
  | classFiles
  | accessorModule
  | accessor
  | dryRun
  | json
  | logLevel
  | printConfig
  | help
  | version
  deriving DecidableEq, Repr

namespace Argument

/-- The options, in the order in which they are explained. -/
def options : List Argument :=
  [config, including, excluding, classPattern, classFiles, accessorModule, accessor, dryRun, json,
    logLevel, printConfig, help, version]

def longName : Argument → String
  | root => ""
  | config => "config"
  | including => "include"
  | excluding => "exclude"
  | classPattern => "class-pattern"
  | classFiles => "class-files"
  | accessorModule => "module"
  | accessor => "accessor"
  | dryRun => "dry-run"
  | json => "json"
  | logLevel => "log-level"
  | printConfig => "print-config"
  | help => "help"
  | version => "version"

def shortName? : Argument → Option Char
  | config => some 'c'
  | help => some 'h'
  | version => some 'V'
  | _ => none

/-- What the value of an option is called, if it takes one. -/
def valueName? : Argument → Option String
  | config => some "CONFIG"
  | including | excluding | classPattern | classFiles => some "GLOB"
  | accessorModule | accessor => some "NAME"
  | logLevel => some "LEVEL"
  | _ => none

def takesValue (a : Argument) : Bool := a.valueName?.isSome

/-- An option that may be given again. -/
def isRepeatable : Argument → Bool
  | including | excluding => true
  | _ => false

/-- A path, which cannot be empty. -/
def isPath : Argument → Bool
  | root | config => true
  | _ => false

def purpose : Argument → String
  | root => "Project root (defaults to `project.root`, usually the current directory)"
  | config => "Path to configuration file"
  | including => "Glob selecting files to load; repeat to add more"
  | excluding => "Glob excluding files from loading; repeat to add more"
  | classPattern => "Glob over class names to migrate"
  | classFiles => "Glob restricting which files' classes are migrated"
  | accessorModule => "Module the accessor function is imported from"
  | accessor => "Accessor function name"
  | dryRun => "Plan and print a diff without writing files"
  | json => "Print the report as JSON"
  | logLevel => "Log level (trace, debug, info, warn, error)"
  | printConfig => "Print the effective configuration as TOML and exit"
  | help => "Print help"
  | version => "Print version"

def ofLongName? (name : String) : Option Argument := options.find? fun a => a.longName == name

def ofShortName? (name : Char) : Option Argument := options.find? fun a => a.shortName? == some name

/-- An argument as it is shown in messages. -/
def display (a : Argument) : String :=
  if a = root then "[ROOT]"
  else
    "--" ++ a.longName ++
      match a.valueName? with
      | some name => " <" ++ name ++ ">"
      | none => ""

end Argument

end FieldInjection.CommandLine
