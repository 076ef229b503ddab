import FieldInjection.Source.Project
import FieldInjection.TypeScript.Constructor
import FieldInjection.TypeScript.Import
import FieldInjection.TypeScript.Reader.Syntax

/-!
# Reading a source file

Puts together what the engine needs to know of a TypeScript file: its class declarations in the order of
the text, with the layout of their members and their constructors, and its import statements. Both are found
anywhere in the tree of the file, which a parser gives; `parseSource` is the one that is used where no other is given.
-/

namespace FieldInjection.TypeScript

/-- The name of a class declaration and its body. -/
def classParts? (n : SyntaxNode) : Option (SyntaxNode × SyntaxNode) :=
  if n.kind = "class_declaration" ∨ n.kind = "abstract_class_declaration" then
    match n.childIn? "name", n.childIn? "body" with
    | some name, some body =>
      if name.kind = "type_identifier" ∧ body.kind = "class_body" then some (name, body) else none
    | _, _ => none
  else none

/-- Reads a node that is a class declaration. -/
def readClass? (file : Path) (source : List Char) (n : SyntaxNode) : Option ClassDecl :=
  (classParts? n).map fun (name, body) =>
    ⟨name.text source, file, n.range, body.start + 1, memberIndent source body, !(members body).isEmpty,
      lineEndingOf source, findConstructor? source body⟩

/-- The module of an import statement. -/
def moduleOf? (n : SyntaxNode) : Option SyntaxNode :=
  if n.kind = "import_statement" then (n.childIn? "source").filter fun m => m.kind == "string" else none

/-- Reads a node that is an import statement with a module. -/
def readImport? (source : List Char) (n : SyntaxNode) : Option ImportDecl :=
  (moduleOf? n).map (readImport source n)

def plainExtensions : List String := ["ts", "mts", "cts"]

def markupExtensions : List String := ["tsx"]

/-- Whether a file is written in TypeScript, by its extension. -/
def supports (path : Path) : Bool :=
  match path.extension? with
  | some ext => plainExtensions.contains ext || markupExtensions.contains ext
  | none => false

/-- The grammar of a file, by its extension. -/
def grammarOf (path : Path) : Grammar :=
  match path.extension? with
  | some ext => if markupExtensions.contains ext then .markup else .plain
  | none => .plain

/-- What is read from the tree of a file. -/
def readTree (path relativePath : Path) (text : String) (tree : SyntaxTree) : SourceUnit :=
  let source := text.toList
  let classes := tree.root.nodes.filterMap (readClass? path source)
  let imports := tree.root.nodes.filterMap (readImport? source)
  ⟨path, relativePath, text, classes.mergeSort fun a b => a.range.start ≤ b.range.start,
    imports.mergeSort fun a b => a.range.start ≤ b.range.start, tree.hasError⟩

def readUnit (path relativePath : Path) (text : String) (parse : Parser := parseSource) : SourceUnit :=
  readTree path relativePath text (parse (grammarOf path) text)

end FieldInjection.TypeScript
