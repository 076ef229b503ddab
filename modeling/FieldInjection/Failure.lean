import FieldInjection.Edit.Log

/-!
# Failures

A class that cannot be migrated is refused for a reason and left as it was; the run goes on without it.
Every other failure ends the run.
-/

namespace FieldInjection

/-- Why a class is left as it was. -/
inductive Refusal where
  /-- A parameter with neither a token nor a declared type. -/
  | malformedParameter (className parameter : String)
  | unsupportedConstructor (className reason : String)
  /-- No import of the accessor's module that could bind the accessor. -/
  | missingImportSurface (file : Path) (moduleName reason : String)
  deriving DecidableEq, Repr

namespace Refusal

/-- The kinds of refusals. -/
inductive Kind where
  | malformedParameter
  | unsupportedConstructor
  | missingImportSurface
  deriving DecidableEq, Repr

def kind : Refusal → Kind
  | .malformedParameter .. => .malformedParameter
  | .unsupportedConstructor .. => .unsupportedConstructor
  | .missingImportSurface .. => .missingImportSurface

def message : Refusal → String
  | .malformedParameter className parameter =>
    "Malformed parameter `" ++ parameter ++ "` in class `" ++ className ++
      "`: no injection token and no declared type"
  | .unsupportedConstructor className reason =>
    "Unsupported constructor in class `" ++ className ++ "`: " ++ reason
  | .missingImportSurface file moduleName reason =>
    "No usable import from `" ++ moduleName ++ "` in " ++ file.text ++ ": " ++ reason

end Refusal

/-- What lies behind a failure. -/
inductive Cause where
  | conflict (conflict : EditConflict)
  | external (text : String)
  deriving DecidableEq, Repr

def Cause.message : Cause → String
  | conflict c => c.message
  | external text => text

/-- Why something failed. -/
inductive Failure where
  | refused (refusal : Refusal)
  | treeConstruction (text : String) (cause : Option Cause)
  /-- A commit that changed nothing, with the edits it did not persist. -/
  | commit (text : String) (unpersisted : List String) (cause : Option Cause)
  | configuration (text : String) (cause : Option Cause)
  | io (text : String)
  deriving DecidableEq, Repr

namespace Failure

def message : Failure → String
  | refused r => r.message
  | treeConstruction text _ => "Failed to build source tree: " ++ text
  | commit text unpersisted _ =>
    "Commit failed, " ++ toString unpersisted.length ++ " edit(s) not persisted: " ++ text
  | configuration text _ => "Configuration error: " ++ text
  | io text => "I/O error: " ++ text

def cause? : Failure → Option Cause
  | refused _ => none
  | treeConstruction _ cause => cause
  | commit _ _ cause => cause
  | configuration _ cause => cause
  | io text => some (.external text)

/-- A failure that ends the run. -/
def isFatal : Failure → Bool
  | refused _ => false
  | _ => true

end Failure

/-- A class that was left as it was, as it is reported. -/
structure ClassFailure where
  file : Path
  className : String
  kind : Refusal.Kind
  reason : String
  deriving DecidableEq, Repr

namespace ClassFailure

def ofRefusal (file : Path) (className : String) (r : Refusal) : ClassFailure :=
  ⟨file, className, r.kind, r.message⟩

/-- The report of a failure, unless it is fatal. -/
def ofFailure? (file : Path) (className : String) : Failure → Option ClassFailure
  | .refused r => some (ofRefusal file className r)
  | _ => none

end ClassFailure

end FieldInjection
