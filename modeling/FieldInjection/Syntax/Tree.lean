import FieldInjection.Text.Range

/-!
# Syntax trees

A syntax tree is what a parser makes of a text. A node stands for a rule of a grammar or for one of its tokens and
takes up a range of the text; a token that the grammar spells out is not named and has its spelling for its kind.
Comments are named nodes that may stand anywhere.

No parser is fixed here. Whatever is read from a file is read from the tree that a parser gives, and what has to be
known of a parser is said where it is used.
-/

namespace FieldInjection

/-- What a node stands for, and where. -/
structure NodeLabel where
  kind : String
  isNamed : Bool
  /-- The field of the node around it in which it stands. -/
  field? : Option String
  range : TextRange
  deriving DecidableEq, Repr

/-- A node of a syntax tree. -/
inductive SyntaxNode where
  | node (label : NodeLabel) (children : List SyntaxNode)
  deriving Repr

namespace SyntaxNode

def label : SyntaxNode → NodeLabel
  | node l _ => l

def children : SyntaxNode → List SyntaxNode
  | node _ cs => cs

def kind (n : SyntaxNode) : String := n.label.kind

def isNamed (n : SyntaxNode) : Bool := n.label.isNamed

def field? (n : SyntaxNode) : Option String := n.label.field?

def range (n : SyntaxNode) : TextRange := n.label.range

def start (n : SyntaxNode) : Nat := n.range.start

/-- The offset just behind the node. -/
def stop (n : SyntaxNode) : Nat := n.range.stop

/-- The source text of a node. -/
def text (n : SyntaxNode) (source : List Char) : String :=
  String.ofList (sliceBytes source n.start n.stop)

/-- The first child in a field. -/
def childIn? (n : SyntaxNode) (field : String) : Option SyntaxNode :=
  n.children.find? fun c => c.field? == some field

def namedChildren (n : SyntaxNode) : List SyntaxNode := n.children.filter isNamed

def isComment (n : SyntaxNode) : Bool := n.kind == "comment"

/-- A token of the given spelling. -/
def isToken (spelling : String) (n : SyntaxNode) : Bool := !n.isNamed && n.kind == spelling

mutual

/-- A node and all nodes below it, each before those below it. -/
def nodes : SyntaxNode → List SyntaxNode
  | node l cs => node l cs :: nodesOfList cs

/-- Some nodes and all nodes below them. -/
def nodesOfList : List SyntaxNode → List SyntaxNode
  | [] => []
  | n :: ns => n.nodes ++ nodesOfList ns

end

end SyntaxNode

/-- The tree of a text, and whether there is anything in the text that the grammar does not have. -/
structure SyntaxTree where
  root : SyntaxNode
  hasError : Bool
  deriving Repr

/-- The grammars of source files. -/
inductive Grammar where
  | plain
  /-- With markup elements. -/
  | markup
  deriving DecidableEq, Repr

/-- A parser gives a tree of every text, also of one with errors. -/
def Parser := Grammar → String → SyntaxTree

end FieldInjection
