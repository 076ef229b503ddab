import FieldInjection.Discovery
import FieldInjection.Migration.Run

/-!
# Projects on a disk

The provider of projects on a disk. Loading reads the discovered files. A commit first renders every file
with edits against what it was loaded as, and only when all of them can be rendered puts them in place; so
a commit that fails leaves the disk as it was, and one that succeeds overwrites nothing that was changed
since.
-/

namespace FieldInjection.Workspace

/-- What is reported of a file that was read. -/
def readingEvents (u : SourceUnit) : List Event :=
  if u.hasSyntaxErrors then [.syntaxErrors u.path] else []

/-- Reads a file, unless its content is no text. -/
def readFile (parse : Parser) (x : FoundFile) : Except Failure SourceUnit :=
  match String.fromUTF8? x.content with
  | some text => .ok (TypeScript.readUnit x.path x.relativePath text parse)
  | none => .error (.treeConstruction ("Failed to read " ++ x.path.text) none)

/-- Reads files up to the first that cannot be read, with what is reported on the way. -/
def readFiles (parse : Parser) : List FoundFile → Except Failure (List SourceUnit) × List Event
  | [] => (.ok [], [])
  | x :: xs =>
    match readFile parse x with
    | .error failure => (.error failure, [])
    | .ok u =>
      let (rest, events) := readFiles parse xs
      (rest.map (u :: ·), readingEvents u ++ events)

/-- Finds the files below a root that some patterns select. -/
def findFiles [GlobReader] (root : Path) (including excluding : List String) (d : Disk) :
    Reply Disk (List FoundFile) :=
  match FileFilter.ofPatterns including excluding with
  | .error failure => ⟨.error failure, d, []⟩
  | .ok filter =>
    match discover filter d root with
    | .error failure => ⟨.error failure, d, []⟩
    | .ok found => ⟨.ok found, d, [.filesDiscovered root found.length]⟩

def load [GlobReader] (r : Request) (d : Disk) (parse : Parser := TypeScript.parseSource) : Reply Disk Project :=
  let search := findFiles r.root r.filePatterns r.excludePatterns d
  match search.answer with
  | .error failure => ⟨.error failure, d, search.events⟩
  | .ok found =>
    match readFiles parse found with
    | (.error failure, events) => ⟨.error failure, d, search.events ++ events⟩
    | (.ok units, events) =>
      let classes := (units.flatMap SourceUnit.classes).length
      ⟨.ok (.ofUnits r.root units), d,
        search.events ++ events ++ [.projectLoaded r.root units.length classes]⟩

/-- The new text of a file with edits: the file must be part of the project and stand on the disk as it
was loaded, and its edits must not conflict. -/
def renderFile (p : Project) (log : EditLog) (d : Disk) (file : Path) :
    Except Failure (SourceUnit × String) :=
  let refuse (text : String) (cause : Option Cause) : Except Failure (SourceUnit × String) :=
    .error (.commit text log.descriptions cause)
  match p.unit? file with
  | none => refuse (file.text ++ " is not part of the project") none
  | some u =>
    match d.readText? u.path with
    | none => refuse ("Failed to read " ++ file.text) none
    | some onDisk =>
      -- what was changed since it was loaded is not overwritten
      if onDisk != u.text then refuse (file.text ++ " changed on disk since it was loaded") none
      else
        match log.apply file u.text with
        | .error conflict => refuse ("Conflicting edits in " ++ file.text) (some (.conflict conflict))
        | .ok after => .ok (u, after)

/-- The new texts of all files with edits, or the first failure. -/
def renderFiles (p : Project) (log : EditLog) (d : Disk) :
    List Path → Except Failure (List (SourceUnit × String))
  | [] => .ok []
  | file :: files =>
    match renderFile p log d file with
    | .error failure => .error failure
    | .ok x =>
      match renderFiles p log d files with
      | .error failure => .error failure
      | .ok xs => .ok (x :: xs)

def replaceAll (d : Disk) (xs : List (SourceUnit × String)) : Disk :=
  xs.foldl (fun d x => d.replace x.1.path x.2) d

/-- Commits a log. -/
def commit (p : Project) (log : EditLog) (d : Disk) : Reply Disk (List Path) :=
  if log.isEmpty then ⟨.ok [], d, []⟩
  else
    -- all texts are known before the first of them is put in place
    match renderFiles p log d log.files with
    | .error failure => ⟨.error failure, d, []⟩
    | .ok xs =>
      ⟨.ok (xs.map fun x => x.1.path), replaceAll d xs, xs.map fun x => .fileReplaced x.1.path⟩

def provider [GlobReader] (parse : Parser := TypeScript.parseSource) : Provider Disk where
  load r d := load r d parse
  preview p log d := ⟨previewLog p log, d, []⟩
  commit := commit

end FieldInjection.Workspace
