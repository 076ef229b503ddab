import FieldInjection.Failure
import FieldInjection.Journal.Event
import FieldInjection.Migration.Request
import FieldInjection.Settings.Setting
import FieldInjection.Text.Blank

/-!
# Settings

What a run is configured by, with its defaults, in three sections. A layer of settings may leave any of them
out, and what it says under other keys does not count, but a value of the wrong kind makes all of it
unreadable.

Settings are valid if they name files to read, a module that is not blank, an identifier as the accessor, a
class pattern and a log level; `validate` reports the first fault in this order.
-/

namespace FieldInjection

/-- Which files make up the project. -/
structure ProjectSettings where
  root : Path := ⟨"."⟩
  including : List String := [Request.defaultFiles]
  excluding : List String := ["**/node_modules/**", "**/*.d.ts", "**/dist/**"]
  deriving DecidableEq, Repr

/-- What to migrate, and how. -/
structure MigrationSettings where
  classFiles : String := Request.defaultFiles
  classNamePattern : String := Request.defaultClasses
  accessorModule : String := Request.defaultModule
  accessorFunction : String := Request.defaultFunction
  isDryRun : Bool := false
  deriving DecidableEq, Repr

/-- What is logged, and in which form. -/
structure LoggingSettings where
  level : String := "info"
  asJson : Bool := false
  deriving DecidableEq, Repr

/-- All settings. -/
structure Settings where
  project : ProjectSettings := {}
  migration : MigrationSettings := {}
  logging : LoggingSettings := {}
  deriving DecidableEq, Repr

/-- The level of a name, in capital or small letters. No letter outside ASCII has one of these letters as its
small form, so only those of ASCII are folded. -/
def LogLevel.ofName? (name : String) : Option LogLevel :=
  match String.ofList (name.toList.map Char.toLower) with
  | "trace" => some .trace
  | "debug" => some .debug
  | "info" => some .info
  | "warn" | "warning" => some .warn
  | "error" => some .error
  | _ => none

def misconfigured (text : String) : Failure := .configuration text none

/-- Reads a level, or says that there is none of the name. -/
def readLogLevel (name : String) : Except Failure LogLevel :=
  match LogLevel.ofName? name with
  | some level => .ok level
  | none =>
    .error (misconfigured
      ("Invalid log level: " ++ name ++ ". Use trace, debug, info, warn, or error"))

/-- A letter of ASCII, an underscore or a dollar sign. -/
def isIdentifierStart (c : Char) : Bool := c.isAlpha || c = '_' || c = '$'

/-- What may follow in an identifier: also a digit. -/
def isIdentifierPart (c : Char) : Bool := isIdentifierStart c || c.isDigit

def isIdentifier (name : String) : Bool :=
  match name.toList with
  | [] => false
  | c :: cs => isIdentifierStart c && cs.all isIdentifierPart

namespace Settings

def toRequest (s : Settings) : Request :=
  ⟨s.project.root, s.project.including, s.project.excluding, s.migration.classFiles,
    s.migration.classNamePattern, s.migration.accessorModule, s.migration.accessorFunction,
    s.migration.isDryRun⟩

/-- Checks settings; the first fault is reported. -/
def validate (s : Settings) : Except Failure Unit :=
  if s.project.including.isEmpty then .error (misconfigured "Include patterns cannot be empty")
  else if s.migration.accessorModule.toList.all isBlank then
    .error (misconfigured "Accessor module cannot be empty")
  else if !isIdentifier s.migration.accessorFunction then
    .error (misconfigured
      ("Accessor function '" ++ s.migration.accessorFunction ++ "' is not a valid identifier"))
  else if s.migration.classNamePattern = "" then
    .error (misconfigured "Class name pattern cannot be empty")
  else
    match readLogLevel s.logging.level with
    | .error failure => .error failure
    | .ok _ => .ok ()

end Settings

/-! ## Reading a layer -/

namespace Setting

/-- A member that may be missing, read by `read?`. -/
def memberOr {α : Type} (s : Setting) (key : String) (default : α) (read? : Setting → Option α) :
    Option α :=
  match s.member? key with
  | none => some default
  | some value => read? value

def text? : Setting → Option String
  | text value => some value
  | _ => none

def boolean? : Setting → Option Bool
  | boolean value => some value
  | _ => none

def texts? : Setting → Option (List String)
  | list items => items.mapM text?
  | _ => none

def table? : Setting → Option Setting
  | table members => some (.table members)
  | _ => none

end Setting

def ProjectSettings.ofSetting? (s : Setting) : Option ProjectSettings := do
  let part ← s.table?
  let defaults : ProjectSettings := {}
  return {
    root := ← part.memberOr "root" defaults.root fun v => v.text?.map Path.mk
    including := ← part.memberOr "include" defaults.including Setting.texts?
    excluding := ← part.memberOr "exclude" defaults.excluding Setting.texts? }

def MigrationSettings.ofSetting? (s : Setting) : Option MigrationSettings := do
  let part ← s.table?
  let defaults : MigrationSettings := {}
  return {
    classFiles := ← part.memberOr "class_files" defaults.classFiles Setting.text?
    classNamePattern := ← part.memberOr "class_name_pattern" defaults.classNamePattern Setting.text?
    accessorModule := ← part.memberOr "accessor_module" defaults.accessorModule Setting.text?
    accessorFunction := ← part.memberOr "accessor_function" defaults.accessorFunction Setting.text?
    isDryRun := ← part.memberOr "dry_run" defaults.isDryRun Setting.boolean? }

def LoggingSettings.ofSetting? (s : Setting) : Option LoggingSettings := do
  let part ← s.table?
  let defaults : LoggingSettings := {}
  return {
    level := ← part.memberOr "level" defaults.level Setting.text?
    asJson := ← part.memberOr "json_format" defaults.asJson Setting.boolean? }

/-- The settings of a layer, with the defaults for what it leaves out. -/
def Settings.ofSetting? (s : Setting) : Option Settings := do
  let all ← s.table?
  return {
    project := ← all.memberOr "project" {} ProjectSettings.ofSetting?
    migration := ← all.memberOr "migration" {} MigrationSettings.ofSetting?
    logging := ← all.memberOr "logging" {} LoggingSettings.ofSetting? }

end FieldInjection
