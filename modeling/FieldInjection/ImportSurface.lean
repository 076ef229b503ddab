import FieldInjection.Failure
import FieldInjection.Source.Project

/-!
# The import surface of a file

A migrated file must import the accessor from its module. If some import statement binds it as a value, or
the log already adds it, nothing is left to do. If a statement binds it with an inline modifier `type`, the
modifier is taken out. Otherwise the name is added to the first import statement of the module, if that
statement can carry it.

`amend` plans the change of one file, `reconcile` records it in the log.
-/

namespace FieldInjection.ImportSurface

/-- What happened to the import surface of a file. -/
inductive Outcome where
  | alreadyImported
  | amended
  deriving DecidableEq, Repr

/-- Why an import surface cannot carry a name. -/
inductive Obstacle where
  | noStatement
  | importedAsType (name : String)
  | firstIsTypeOnly (name : String)
  | unsupported (reason : String)
  deriving DecidableEq, Repr

def Obstacle.message : Obstacle → String
  | noStatement => "the file has no import statement from this module"
  | importedAsType name => "`" ++ name ++ "` is imported with `import type`"
  | firstIsTypeOnly name => "the first import is type-only and cannot carry `" ++ name ++ "`"
  | unsupported reason => reason

/-- The edit that adds a name at an insertion point. -/
def insertion (name : String) : Insertion → Except Obstacle TextEdit
  | .afterLastSpecifier offset => .ok (.insert offset (", " ++ name))
  | .emptyNamedList offset => .ok (.insert offset (" " ++ name ++ " "))
  | .afterDefaultBinding offset => .ok (.insert offset (", \x7b " ++ name ++ " \x7d"))
  | .unsupported reason => .error (.unsupported reason)

/-- The edit that makes some import statements bind a name as a value when none of them does so yet. -/
def amend (name : String) : List ImportDecl → Except Obstacle TextEdit
  | [] => .error .noStatement
  | first :: others =>
    match (first :: others).findSome? fun i => i.inlineType? name with
    | some specifier => .ok (.delete specifier.modifier)
    | none =>
      if (first :: others).any fun i => i.bindsTypeOnly name then .error (.importedAsType name)
      -- no other statement is tried
      else if first.isTypeOnly then .error (.firstIsTypeOnly name)
      else insertion name first.insertion

/-- The edit is one for the statement: it takes out the modifier with which the statement imports the name, or it adds
the name. -/
def IsAmendment (name : String) (i : ImportDecl) (e : TextEdit) : Prop :=
  (∃ s ∈ i.typeOnlyNamed, s.name = name ∧ e = .delete s.modifier) ∨ insertion name i.insertion = .ok e

/-- A statement that is no `import type` is changed: a modifier of it is taken out, or the name is added, which no
statement binds as a type. -/
theorem amend_eq_ok {name : String} {is : List ImportDecl} {e : TextEdit} (h : amend name is = .ok e) :
    ∃ i ∈ is, i.isTypeOnly = false ∧ ((∃ s ∈ i.typeOnlyNamed, s.name = name ∧ e = .delete s.modifier) ∨
      insertion name i.insertion = .ok e ∧ ∀ j ∈ is, j.bindsTypeOnly name = false) := by
  cases is with
  | nil => cases h
  | cons first others =>
    simp only [amend] at h
    split at h
    · rename_i s hs
      cases h
      obtain ⟨i, hi, htype⟩ := List.exists_of_findSome?_eq_some hs
      unfold ImportDecl.inlineType? at htype
      split at htype
      · cases htype
      · rename_i hvalue
        exact ⟨i, hi, by simpa using hvalue, Or.inl ⟨s, List.mem_of_find?_eq_some htype,
          by simpa using List.find?_some htype, rfl⟩⟩
    · split at h
      · cases h
      · rename_i htypeOnly
        split at h
        · cases h
        · rename_i hvalue
          refine ⟨first, List.mem_cons_self, by simpa using hvalue, Or.inr ⟨h, ?_⟩⟩
          intro j hj
          have hnone : (first :: others).any (fun i => i.bindsTypeOnly name) = false := by simpa using htypeOnly
          simpa using List.any_eq_false.mp hnone j hj

/-- Sees to it that a file imports a name from a module, recording the change in the log if one is
needed. -/
def reconcile (moduleName name : String) (u : SourceUnit) (log : EditLog) :
    Except Refusal (EditLog × Outcome) :=
  let imports := u.importsFrom moduleName
  -- an edit for an earlier class of the file counts as much as a statement
  if !imports.isEmpty &&
      (imports.any (fun i => i.binds name) || log.addsImport u.path moduleName name) then
    .ok (log, .alreadyImported)
  else
    match amend name imports with
    | .error obstacle => .error (.missingImportSurface u.path moduleName obstacle.message)
    | .ok edit => .ok (log.push ⟨u.path, .addNamedImport moduleName name, edit⟩, .amended)

end FieldInjection.ImportSurface
