import FieldInjection.Failure
import FieldInjection.FileTree.Disk
import FieldInjection.Glob.Match
import FieldInjection.TypeScript.SourceFile

/-!
# Discovering source files

The source files of a project are the regular files below its root that are written in TypeScript, match
one of the globs that include files and none of those that exclude them. The globs look at paths under the
root.
-/

namespace FieldInjection

/-- The globs that include and exclude files. -/
structure FileFilter where
  including : List Matcher
  excluding : List Matcher

section
variable [GlobReader]

/-- The globs of some patterns; the first that cannot be read is reported. -/
def fileGlobs : List String → Except Failure (List Matcher)
  | [] => .ok []
  | pattern :: patterns =>
    match GlobReader.forPaths pattern with
    | none => .error (.treeConstruction ("Invalid file pattern '" ++ pattern ++ "'") none)
    | some g =>
      match fileGlobs patterns with
      | .error failure => .error failure
      | .ok gs => .ok (g :: gs)

def FileFilter.ofPatterns (including excluding : List String) : Except Failure FileFilter :=
  match fileGlobs including with
  | .error failure => .error failure
  | .ok inside =>
    match fileGlobs excluding with
    | .error failure => .error failure
    | .ok outside => .ok ⟨inside, outside⟩

end

/-- Whether a file is selected, by its path under the root. -/
def FileFilter.selects (f : FileFilter) (relativePath : Path) : Bool :=
  TypeScript.supports relativePath && f.including.any (·.accepts relativePath.text) &&
    !f.excluding.any (·.accepts relativePath.text)

/-- A file below a root. -/
structure FoundFile where
  path : Path
  relativePath : Path
  content : ByteArray

/-- The files below a root, in path order. -/
def filesBelow (root : Path) (tree : Node) : List FoundFile :=
  tree.files.map fun x =>
    let relative : Path := ⟨String.intercalate "/" x.1⟩
    ⟨root.join relative, relative, x.2⟩

/-- The selected files below a root, in path order. -/
def discover (f : FileFilter) (d : Disk) (root : Path) : Except Failure (List FoundFile) :=
  match d.find? root with
  | some (.directory es) =>
    .ok ((filesBelow root (.directory es)).filter fun x => f.selects x.relativePath)
  | _ => .error (.treeConstruction ("Project root " ++ root.text ++ " is not a directory") none)

end FieldInjection
