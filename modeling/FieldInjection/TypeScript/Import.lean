import FieldInjection.Source.Import
import FieldInjection.Syntax.Tree

/-!
# Import statements

Reads an import statement from its node: the names that its clause binds, and where another one could be added.
-/

namespace FieldInjection.TypeScript

/-- What an import clause binds. -/
structure ImportClause where
  named : List String
  typeOnlyNamed : List TypeSpecifier
  insertion : Insertion
  deriving DecidableEq, Repr

namespace ImportClause

/-- A clause to which no name can be added. -/
def unsupported (reason : String) : ImportClause := ⟨[], [], .unsupported reason⟩

/-- The clause of a statement without bindings. -/
def sideEffect : ImportClause := unsupported "side-effect import has no bindings"

/-- The clause of a namespace. -/
def wholeModule : ImportClause := unsupported "namespace import cannot carry named bindings"

end ImportClause

/-- The local name that a specifier binds: behind `as`, or else the imported one. -/
def localName? (specifier : SyntaxNode) : Option SyntaxNode :=
  (specifier.childIn? "alias").or (specifier.childIn? "name")

/-- From the keyword `type` in front of a specifier up to the imported name. -/
def typeModifier? (specifier : SyntaxNode) : Option TextRange :=
  match specifier.children.head?, specifier.childIn? "name" with
  | some keyword, some name => if keyword.isToken "type" then some ⟨keyword.start, name.start⟩ else none
  | _, _ => none

/-- The local name of a specifier that is imported as a value too. -/
def valueName? (source : List Char) (specifier : SyntaxNode) : Option String :=
  match localName? specifier, typeModifier? specifier with
  | some name, none => some (name.text source)
  | _, _ => none

/-- The local name of a specifier that is imported only as a type, with its modifier. -/
def typeSpecifier? (source : List Char) (specifier : SyntaxNode) : Option TypeSpecifier :=
  match localName? specifier, typeModifier? specifier with
  | some name, some modifier => some ⟨name.text source, modifier⟩
  | _, _ => none

/-- The names of a list in braces. -/
def specifiers (list : SyntaxNode) : List SyntaxNode :=
  list.namedChildren.filter fun n => n.kind == "import_specifier"

/-- The clause of a list of names in braces. -/
def readList (source : List Char) (list : SyntaxNode) : ImportClause :=
  ⟨(specifiers list).filterMap (valueName? source), (specifiers list).filterMap (typeSpecifier? source),
    match (specifiers list).getLast? with
    | some last => .afterLastSpecifier last.stop
    | none => .emptyNamedList (list.start + 1)⟩

def readClause (source : List Char) (clause : SyntaxNode) : ImportClause :=
  match clause.namedChildren.find? fun n => n.kind == "named_imports" with
  | some list => readList source list
  | none =>
    if clause.namedChildren.any fun n => n.kind == "namespace_import" then .wholeModule
    else
      match clause.namedChildren.find? fun n => n.kind == "identifier" with
      | some name => ⟨[], [], .afterDefaultBinding name.stop⟩
      | none => .unsupported "unrecognized import clause"

/-- The name of a module without the quotes around it. -/
def unquote (text : String) : String :=
  let isQuote (c : Char) : Bool := c = '\'' || c = '"'
  String.ofList (((text.toList.dropWhile isQuote).reverse.dropWhile isQuote).reverse)

/-- The clause of an import statement. -/
def clauseOf? (statement : SyntaxNode) : Option SyntaxNode :=
  statement.children.find? fun n => n.kind == "import_clause"

/-- Reads the import statement of a module. -/
def readImport (source : List Char) (statement module : SyntaxNode) : ImportDecl :=
  let clause := (clauseOf? statement).elim .sideEffect (readClause source)
  ⟨unquote (module.text source), clause.named, clause.typeOnlyNamed, statement.children.any (·.isToken "type"),
    statement.range, clause.insertion⟩

end FieldInjection.TypeScript
