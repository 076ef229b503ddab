import FieldInjection.Failure

/-!
# Requests and results of a migration
-/

namespace FieldInjection

/-- What to migrate, and how. -/
structure Request where
  root : Path
  /-- The files to read. -/
  filePatterns : List String
  /-- Files not to read all the same. -/
  excludePatterns : List String
  /-- The files whose classes are migrated. -/
  classFiles : String
  /-- The classes that are migrated. -/
  classNamePattern : String
  accessorModule : String
  accessorFunction : String
  /-- Whether to show the changes instead of making them. -/
  isDryRun : Bool
  deriving DecidableEq, Repr

namespace Request

/-- The pattern of files that are read and migrated if nothing else is asked for. -/
def defaultFiles : String := "**/*.ts"

/-- The pattern of classes that are migrated if nothing else is asked for. -/
def defaultClasses : String := "*Component"

/-- The module of the accessor if nothing else is asked for. -/
def defaultModule : String := "@angular/core"

/-- The accessor if nothing else is asked for. -/
def defaultFunction : String := "inject"

/-- The request for a root in which nothing else is asked for. -/
def forRoot (root : Path) : Request :=
  ⟨root, [defaultFiles], [], defaultFiles, defaultClasses, defaultModule, defaultFunction, false⟩

end Request

/-- What a migration came to. -/
structure Summary where
  modified : Nat
  skipped : Nat
  failures : List ClassFailure
  plannedEdits : Nat
  filesWritten : List Path
  isDryRun : Bool
  /-- No class failed. -/
  success : Bool
  deriving DecidableEq, Repr

/-- A file before and after its edits. -/
structure FilePreview where
  path : Path
  before : String
  after : String
  deriving DecidableEq, Repr

/-- A migration with its edits, and their previews if it was a dry run. -/
structure Outcome where
  summary : Summary
  log : EditLog
  previews : List FilePreview
  deriving DecidableEq, Repr

def Summary.inWords (s : Summary) : String :=
  toString s.modified ++ " class(es) migrated, " ++ toString s.skipped ++ " skipped, " ++
    toString s.failures.length ++ " failed"

end FieldInjection
