import FieldInjection.FileTree.Node

/-!
# Disks

A disk is a file tree with a working directory. A path is looked up component by component: an absolute
path from the top, any other from the working directory. Links on the way are followed, and so is a last
one, except where an entry itself is replaced or taken out.
-/

namespace FieldInjection

/-- A file tree that is seen from one of its directories. -/
structure Disk where
  top : Node
  workingDirectory : List String

/-- How many links may be followed on the way to a file. -/
def maxLinks : Nat := 40

/-- The place that components lead to from `here`; the last name may be missing there. -/
def Node.resolve (top : Node) (links : Nat) (here : List String) :
    List Component → Option (List String)
  | [] => some here
  | .root :: rest => resolve top links [] rest
  | c :: rest =>
    match top.find? here with
    | some (.directory es) =>
      match c with
      | .parent => resolve top links here.dropLast rest -- the top is its own parent
      | .name text =>
        match es.lookup text with
        -- the last name may still be made
        | none => if rest = [] then some (here ++ [text]) else none
        | some (.link target) =>
          match links with
          | 0 => none
          -- a relative target is looked up where the link stands
          | links + 1 => resolve top links here (target.components ++ rest)
        | some _ => resolve top links (here ++ [text]) rest
      | _ => resolve top links here rest
    | _ => none
  termination_by cs => (links, cs.length)

namespace Disk

/-- The place of a path, whose last name may be missing. -/
def locate? (d : Disk) (p : Path) : Option (List String) :=
  if p.text = "" then none else d.top.resolve maxLinks d.workingDirectory p.components

/-- The place of the entry that a path names, a link at the end not being followed. -/
def locateEntry? (d : Disk) (p : Path) : Option (List String) :=
  match p.components.getLast? with
  | some (.name text) =>
    match d.top.resolve maxLinks d.workingDirectory p.components.dropLast with
    | none => none
    | some place =>
      match d.top.find? place with
      | some (.directory _) => some (place ++ [text])
      | _ => none
  | _ => none

/-- What a path leads to. A path that ends like that of a directory leads to nothing else. -/
def find? (d : Disk) (p : Path) : Option Node := do
  let place ← d.locate? p
  let node ← d.top.find? place
  if p.endsLikeDirectory && !node.isDirectory then none else some node

def contains (d : Disk) (p : Path) : Bool := (d.find? p).isSome

/-- The content of the file that a path leads to. -/
def read? (d : Disk) (p : Path) : Option ByteArray :=
  match d.find? p with
  | some (.file content) => some content
  | _ => none

/-- The text of the file that a path leads to. -/
def readText? (d : Disk) (p : Path) : Option String := (d.read? p).bind String.fromUTF8?

def put (d : Disk) (place : List String) (node : Node) : Disk := { d with top := node.put place d.top }

/-- Writes the file that a path leads to. Where there is no directory for it, nothing happens. -/
def write (d : Disk) (p : Path) (content : ByteArray) : Disk :=
  match d.locate? p with
  | some place => d.put place (.file content)
  | none => d

/-- Puts a file in the place of the entry that a path names. -/
def replace (d : Disk) (p : Path) (text : String) : Disk :=
  match d.locateEntry? p with
  | some place => d.put place (.file text.toUTF8)
  | none => d

/-- Takes out the entry that a path names. -/
def remove (d : Disk) (p : Path) : Disk :=
  match d.locateEntry? p with
  | some place => { d with top := d.top.erase place }
  | none => d

/-- Makes the directories that components lead to, one after the other. -/
def makeDirectoriesFrom (d : Disk) (done : List Component) : List Component → Disk
  | [] => d
  | c :: rest =>
    let path := done ++ [c]
    let next :=
      match d.top.resolve maxLinks d.workingDirectory path with
      | some place => if (d.top.find? place).isSome then d else d.put place .emptyDirectory
      | none => d
    makeDirectoriesFrom next path rest

/-- Makes the directory that a path names, and those above it. -/
def makeDirectories (d : Disk) (p : Path) : Disk := d.makeDirectoriesFrom [] p.components

/-- Makes the directories above what a path names. -/
def makeParents (d : Disk) (p : Path) : Disk := d.makeDirectoriesFrom [] p.components.dropLast

/-- Writes a file, with the directories above it. -/
def create (d : Disk) (p : Path) (content : ByteArray) : Disk := (d.makeParents p).write p content

/-- Makes a link, with the directories above it. -/
def createLink (d : Disk) (p target : Path) : Disk :=
  let d := d.makeParents p
  match d.locateEntry? p with
  | some place => d.put place (.link target)
  | none => d

end Disk

end FieldInjection
