import FieldInjection.Edit.Apply
import FieldInjection.Path

/-!
# The edit log

Nothing changes a source text while a migration is planned. Every change is recorded in one log, with the
file it belongs to and what it is for, and the log is applied as a whole at the end. A log only grows,
except that it can be cut back to an earlier length.

Files are told apart by path components, so edits pushed under two spellings of one path belong together.
-/

namespace FieldInjection

/-- What an edit is for. -/
inductive EditPurpose where
  | insertFields (className : String) (fields : List String)
  | removeParameter (className : String) (parameter : String)
  | addNamedImport (moduleName : String) (name : String)
  deriving DecidableEq, Repr

def EditPurpose.describe : EditPurpose → String
  | insertFields className fields =>
    "insert field(s) " ++ String.intercalate ", " fields ++ " into class `" ++ className ++ "`"
  | removeParameter className parameter =>
    "remove constructor parameter `" ++ parameter ++ "` from class `" ++ className ++ "`"
  | addNamedImport moduleName name => "import `" ++ name ++ "` from `" ++ moduleName ++ "`"

/-- An edit of a file with its purpose. -/
structure PlannedEdit where
  file : Path
  purpose : EditPurpose
  edit : TextEdit
  deriving DecidableEq, Repr

def PlannedEdit.describe (e : PlannedEdit) : String := e.file.text ++ ": " ++ e.purpose.describe

/-- The edits planned so far, oldest first. -/
structure EditLog where
  edits : List PlannedEdit := []
  deriving DecidableEq, Repr

namespace EditLog

def empty : EditLog := ⟨[]⟩

def size (log : EditLog) : Nat := log.edits.length

def isEmpty (log : EditLog) : Bool := log.edits.isEmpty

def push (log : EditLog) (e : PlannedEdit) : EditLog := ⟨log.edits ++ [e]⟩

/-- Cuts the log back to its first `n` edits. -/
def truncate (log : EditLog) (n : Nat) : EditLog := ⟨log.edits.take n⟩

/-- The edits of one file, under any spelling of its path. -/
def forFile (log : EditLog) (file : Path) : List PlannedEdit :=
  log.edits.filter fun e => e.file.same file

/-- Inserts a path into a list sorted by the path order; it takes the place of another spelling of it. -/
def insertFile (file : Path) : List Path → List Path
  | [] => [file]
  | f :: fs =>
    match file.compare f with
    | .lt => file :: f :: fs
    | .eq => file :: fs
    | .gt => f :: insertFile file fs

/-- The files with edits, in path order, each in the spelling it was last pushed under. -/
def files (log : EditLog) : List Path :=
  log.edits.foldl (fun fs e => insertFile e.file fs) []

/-- Whether the log adds an import of a name from a module to a file. -/
def addsImport (log : EditLog) (file : Path) (moduleName name : String) : Bool :=
  log.edits.any fun e => e.file.same file && e.purpose == .addNamedImport moduleName name

def descriptions (log : EditLog) : List String := log.edits.map PlannedEdit.describe

/-- The text of a file with the log's edits for it. -/
def apply (log : EditLog) (file : Path) (text : String) : Except EditConflict String :=
  applyEdits text ((log.forFile file).map PlannedEdit.edit)

end EditLog

end FieldInjection
