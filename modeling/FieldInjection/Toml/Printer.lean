import FieldInjection.Settings
import FieldInjection.Toml.Quoting

/-!
# Writing settings as TOML

Settings are written in three sections with an empty line between them. A list of more than one item is
written over several lines.
-/

namespace FieldInjection.Toml

def writeBoolean (b : Bool) : List Char := if b then "true".toList else "false".toList

/-- A list of strings as it is written. -/
def writeList : List String → List Char
  | [] => ['[', ']']
  | [item] => '[' :: writeText item ++ [']']
  | items =>
    '[' :: '\n' :: (items.flatMap fun item => "    ".toList ++ writeText item ++ [',', '\n']) ++ [']']

/-- A line that gives a value to a key. -/
def writeMember (key : String) (value : List Char) : List Char :=
  key.toList ++ " = ".toList ++ value ++ ['\n']

def writeHeader (name : String) : List Char := '[' :: name.toList ++ [']', '\n']

end FieldInjection.Toml

namespace FieldInjection

open Toml

def ProjectSettings.toToml (s : ProjectSettings) : List Char :=
  writeHeader "project" ++ writeMember "root" (writeText s.root.text) ++
    writeMember "include" (writeList s.including) ++ writeMember "exclude" (writeList s.excluding)

def MigrationSettings.toToml (s : MigrationSettings) : List Char :=
  writeHeader "migration" ++ writeMember "class_files" (writeText s.classFiles) ++
    writeMember "class_name_pattern" (writeText s.classNamePattern) ++
    writeMember "accessor_module" (writeText s.accessorModule) ++
    writeMember "accessor_function" (writeText s.accessorFunction) ++
    writeMember "dry_run" (writeBoolean s.isDryRun)

def LoggingSettings.toToml (s : LoggingSettings) : List Char :=
  writeHeader "logging" ++ writeMember "level" (writeText s.level) ++
    writeMember "json_format" (writeBoolean s.asJson)

def Settings.toToml (s : Settings) : String :=
  String.ofList (s.project.toToml ++ '\n' :: s.migration.toToml ++ '\n' :: s.logging.toToml)

end FieldInjection
