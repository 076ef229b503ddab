/-!
# Paths

A path is kept as it was spelled, and compared by its components: a leading `/`, a leading `.`, every
`..` and every name. Repeated slashes, a slash at the end and any other `.` do not count, so `a//b` and
`a/./b/` are spellings of one path while `./a` and `a` are two.

Paths are Unicode texts here. A file system may hold names that are no UTF-8; these are left out, and nothing is said
about them. (They cannot be shown as they are: what stands for them in a text does not lead back to them.)

Whether a path lies under a root, and what is left of it then, is answered
by `stripRoot?`, whose result keeps the inner spelling of the rest.
-/

namespace FieldInjection

/-- A component of a path. The constructors stand in the order in which components are sorted. -/
inductive Component where
  | root
  | current
  | parent
  | name (text : String)
  deriving DecidableEq, Repr

namespace Component

/-- The place of a component's kind in the order. -/
def rank : Component → Nat
  | root => 0
  | current => 1
  | parent => 2
  | name _ => 3

/-- Components by kind, names among themselves by their bytes. -/
def compare : Component → Component → Ordering
  | name a, name b => Ord.compare a b
  | a, b => Ord.compare a.rank b.rank

end Component

/-- A path in its spelling, which is valid UTF-8. -/
structure Path where
  text : String
  deriving DecidableEq, Repr, Inhabited

namespace Path

/-- The stretches between slashes; there is one more of them than slashes. -/
def segments : List Char → List (List Char)
  | [] => [[]]
  | c :: cs =>
    match segments cs with
    | [] => [[c]]
    | s :: rest => if c = '/' then [] :: s :: rest else (c :: s) :: rest

/-- Puts slashes between segments. -/
def ofSegments : List (List Char) → List Char
  | [] => []
  | [s] => s
  | s :: rest => s ++ '/' :: ofSegments rest

/-- A segment that does not count as a component behind the first one. -/
def isIdle (s : List Char) : Bool := s = [] || s = ['.']

/-- The components of the segments behind the first one. -/
def bodyComponents (ss : List (List Char)) : List Component :=
  (ss.filter fun s => !isIdle s).map fun s =>
    if s = ['.', '.'] then .parent else .name (String.ofList s)

/-- How a path begins: its first component if that is a `/` or a `.`, and the segments that follow. -/
def split (p : Path) : Option Component × List (List Char) :=
  match segments p.text.toList with
  | [] :: s :: rest => (some .root, s :: rest)
  | ['.'] :: rest => (some .current, rest)
  | ss => (none, ss)

def components (p : Path) : List Component :=
  p.split.1.toList ++ bodyComponents p.split.2

/-- Two spellings of one path. -/
def same (p q : Path) : Bool := p.components == q.components

/-- Compares component lists, the shorter first when one continues the other. -/
def compareComponents : List Component → List Component → Ordering
  | [], [] => .eq
  | [], _ :: _ => .lt
  | _ :: _, [] => .gt
  | a :: as, b :: bs => (a.compare b).then (compareComponents as bs)

def compare (p q : Path) : Ordering := compareComponents p.components q.components

/-- Not behind in the order. -/
def le (p q : Path) : Bool := p.compare q != .gt

/-- A path that begins with a slash. -/
def isAbsolute (p : Path) : Bool :=
  match p.text.toList with
  | '/' :: _ => true
  | _ => false

/-- A path that ends in a slash, or in a `.` behind one, as only that of a directory may. -/
def endsLikeDirectory (p : Path) : Bool :=
  match p.text.toList.reverse with
  | '/' :: _ => true
  | '.' :: '/' :: _ => true
  | _ => false

/-- `q` as seen from `p`: `q` itself if it is absolute, else `q` behind `p` and a slash. -/
def join (p q : Path) : Path :=
  if q.isAbsolute then q
  else
    match p.text.toList.getLast? with
    | none => q
    | some '/' => ⟨p.text ++ q.text⟩
    | some _ => ⟨p.text ++ "/" ++ q.text⟩

/-- Without the idle segments at the end. -/
def trimEnd (ss : List (List Char)) : List (List Char) := (ss.reverse.dropWhile isIdle).reverse

/-- Without the idle segments at either end. -/
def trim (ss : List (List Char)) : List (List Char) := trimEnd (ss.dropWhile isIdle)

/-- Drops the segments of the first `n` components. -/
def dropBody : Nat → List (List Char) → List (List Char)
  | 0, ss => ss
  | _ + 1, [] => []
  | n + 1, s :: ss => if isIdle s then dropBody (n + 1) ss else dropBody n ss

/-- What is left of a path behind its first `n` components, without separators at either end. Without any
component dropped, only the end is trimmed. -/
def afterComponents (p : Path) : Nat → List Char
  | 0 =>
    match p.split with
    | (some .root, ss) => '/' :: ofSegments (trimEnd ss)
    | (some _, ss) => ofSegments (['.'] :: trimEnd ss)
    | (none, ss) => ofSegments (trimEnd ss)
  | n + 1 =>
    -- the beginning is the first of the components
    match p.split with
    | (some _, ss) => ofSegments (trim (dropBody n ss))
    | (none, ss) => ofSegments (trim (dropBody (n + 1) ss))

/-- The rest of a path under a root, if the root's components are the path's first ones. -/
def stripRoot? (root p : Path) : Option Path :=
  if root.components.isPrefixOf p.components then
    some ⟨String.ofList (p.afterComponents root.components.length)⟩
  else none

/-- How a path is shown in reports: without the root if it lies under it. -/
def display (root p : Path) : String :=
  match stripRoot? root p with
  | some rest => rest.text
  | none => p.text

/-- The last component, if it is a name. -/
def fileName? (p : Path) : Option String :=
  match p.components.getLast? with
  | some (.name text) => some text
  | _ => none

/-- What follows the last dot of the file name; a name whose only dot is its first character has no
extension. -/
def extension? (p : Path) : Option String := do
  let fileName ← p.fileName?
  let backward := fileName.toList.reverse
  match backward.dropWhile (· ≠ '.') with
  | [] => none
  | _ :: stem =>
    if stem = [] then none
    else some (String.ofList (backward.takeWhile (· ≠ '.')).reverse)

end Path

end FieldInjection
