import FieldInjection.Settings

/-!
# Flags

What can be asked for on the command line. Flags override the loaded settings: a value takes the place of
the loaded one, and globs, if there are any, the place of the loaded list.
-/

namespace FieldInjection

/-- What was asked for on the command line. -/
structure Flags where
  root : Option Path := none
  config : Option Path := none
  including : List String := []
  excluding : List String := []
  classPattern : Option String := none
  classFiles : Option String := none
  accessorModule : Option String := none
  accessor : Option String := none
  isDryRun : Bool := false
  asJson : Bool := false
  logLevel : Option String := none
  printsSettings : Bool := false
  deriving DecidableEq, Repr

namespace Flags

/-- Some globs, or others if there are none. -/
def globsOr (asked loaded : List String) : List String := if asked.isEmpty then loaded else asked

/-- Loaded settings with what the flags say. -/
def override (f : Flags) (s : Settings) : Settings where
  project :=
    { root := f.root.getD s.project.root
      including := globsOr f.including s.project.including
      excluding := globsOr f.excluding s.project.excluding }
  migration :=
    { classFiles := f.classFiles.getD s.migration.classFiles
      classNamePattern := f.classPattern.getD s.migration.classNamePattern
      accessorModule := f.accessorModule.getD s.migration.accessorModule
      accessorFunction := f.accessor.getD s.migration.accessorFunction
      isDryRun := f.isDryRun || s.migration.isDryRun }
  logging := { s.logging with level := f.logLevel.getD s.logging.level }

end Flags

end FieldInjection
