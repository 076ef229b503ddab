import FieldInjection.Path

/-!
# File trees

A file tree is a regular file, a symbolic link, or a directory of named trees. A place in a tree is the list
of names that lead to it from the top, and no link is followed on the way.

`find?` says what stands at a place and `put` replaces it. `leaves` lists everything but the directories,
each directory's entries in the order of their names, so that the places come in path order.
-/

namespace FieldInjection

/-- A file, a link or a directory. -/
inductive Node where
  | file (content : ByteArray)
  | link (target : Path)
  | directory (entries : List (String × Node))
  deriving Inhabited

namespace Node

def emptyDirectory : Node := .directory []

def isDirectory : Node → Bool
  | directory _ => true
  | _ => false

def entries : Node → List (String × Node)
  | directory es => es
  | _ => []

def entry? (n : Node) (name : String) : Option Node := n.entries.lookup name

def find? : Node → List String → Option Node
  | n, [] => some n
  | n, name :: place =>
    match n.entry? name with
    | none => none
    | some child => child.find? place

/-- Replaces the entry of a name, or adds one at the end. -/
def putEntry (name : String) (child : Node) : List (String × Node) → List (String × Node)
  | [] => [(name, child)]
  | e :: es => if e.1 = name then (name, child) :: es else e :: putEntry name child es

/-- Replaces what stands at a place; directories that are missing on the way are made, and a file or a link
on the way gives way to one. -/
def put (child : Node) : List String → Node → Node
  | [], _ => child
  | name :: place, n =>
    .directory (putEntry name (put child place ((n.entry? name).getD emptyDirectory)) n.entries)

/-- Takes out what stands at a place. -/
def erase : List String → Node → Node
  | [], n => n
  | [name], .directory es => .directory (es.filter fun e => e.1 != name)
  | name :: place, .directory es =>
    match es.lookup name with
    | none => .directory es
    | some child => .directory (putEntry name (erase place child) es)
  | _, n => n

/-- Not behind in the order of names. -/
def nameLe {α : Type} (a b : String × α) : Bool := a.1 ≤ b.1

mutual

/-- Everything in a tree but the directories, with its place, in the order of a walk. -/
def leaves : Node → List (List String × Node)
  | .file content => [([], .file content)]
  | .link target => [([], .link target)]
  | .directory es =>
    ((entryLeaves es).mergeSort nameLe).flatMap fun e => e.2.map fun x => (e.1 :: x.1, x.2)

/-- The leaves of each of some entries. -/
def entryLeaves : List (String × Node) → List (String × List (List String × Node))
  | [] => []
  | e :: es => (e.1, leaves e.2) :: entryLeaves es

end

/-- The regular files of a tree with their places, in the order of a walk. -/
def files (n : Node) : List (List String × ByteArray) :=
  n.leaves.filterMap fun x =>
    match x.2 with
    | .file content => some (x.1, content)
    | _ => none

end Node

end FieldInjection
