import FieldInjection.Glob.Match
import FieldInjection.Migration.Request
import FieldInjection.Source.Project

/-!
# Selecting classes

A class is migrated if its file matches one glob and its name another. The globs of files look at paths
under the root and stop at slashes, the globs of names do not.
-/

namespace FieldInjection

/-- The globs that select classes. -/
structure Selector where
  files : Matcher
  names : Matcher

variable [GlobReader]

namespace Selector

/-- A selector from two patterns; the first that cannot be read is reported. -/
def ofPatterns (filePattern namePattern : String) : Except Failure Selector :=
  let invalid (pattern : String) : Failure :=
    .configuration ("Invalid glob pattern '" ++ pattern ++ "'") none
  match GlobReader.forPaths filePattern with
  | none => .error (invalid filePattern)
  | some files =>
    match GlobReader.forNames namePattern with
    | none => .error (invalid namePattern)
    | some names => .ok ⟨files, names⟩

def ofRequest (r : Request) : Except Failure Selector := ofPatterns r.classFiles r.classNamePattern

/-- Whether a class of a unit is selected. -/
def selects (s : Selector) (u : SourceUnit) (c : ClassDecl) : Bool :=
  s.files.accepts u.relativePath.text && s.names.accepts c.name

/-- The selected classes of a project, in its order. -/
def select (s : Selector) (p : Project) : List (SourceUnit × ClassDecl) :=
  p.classes.filter fun x => s.selects x.1 x.2

end Selector

end FieldInjection
