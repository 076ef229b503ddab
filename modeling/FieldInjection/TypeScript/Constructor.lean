import FieldInjection.TypeScript.Layout

/-!
# Constructors and their parameters

Reads the constructor of a class from the node of its body. A parameter is read from the fields and children of its
node; a decorator is classified by the expression behind its `@`.
-/

namespace FieldInjection.TypeScript

/-- The arguments of a call, by their texts. -/
def argumentTexts (source : List Char) (arguments : SyntaxNode) : List String :=
  (arguments.namedChildren.filter fun n => !n.isComment).map fun n => n.text source

/-- What a decorator means: a call by its function and arguments, anything else by its text. -/
def decoratorKind (source : List Char) (decorator : SyntaxNode) : DecoratorKind :=
  match decorator.namedChildren.head? with
  | none => .unrecognized
  | some expression =>
    if expression.kind = "call_expression" then
      let name := (expression.childIn? "function").elim "" fun n => n.text source
      let arguments := (expression.childIn? "arguments").elim [] (argumentTexts source)
      .classify name (some arguments)
    else .classify (expression.text source) none

def readDecorator (source : List Char) (decorator : SyntaxNode) : Decorator :=
  ⟨decorator.text source, decoratorKind source decorator⟩

/-- The name and binding of a parameter. -/
def readPattern (source : List Char) (parameter : SyntaxNode) : String × Binding :=
  match parameter.childIn? "pattern" with
  | none => ("", .identifier)
  | some pattern =>
    if pattern.kind = "rest_pattern" then
      (pattern.namedChildren.head?.elim "" fun n => n.text source, .rest)
    else if pattern.kind = "object_pattern" ∨ pattern.kind = "array_pattern" then
      (pattern.text source, .destructured)
    else (pattern.text source, .identifier)

/-- The declared type, without the colon. -/
def readType (source : List Char) (parameter : SyntaxNode) : Option String :=
  ((parameter.childIn? "type").bind fun n => n.namedChildren.head?).map fun n => n.text source

/-- Adds what a child of its node says of a parameter. -/
def addPart (source : List Char) (p : Parameter) (part : SyntaxNode) : Parameter :=
  if part.kind = "decorator" then { p with decorators := p.decorators ++ [readDecorator source part] }
  -- the last of several scopes counts
  else if part.kind = "accessibility_modifier" then
    { p with scope := (Scope.ofKeyword? (part.text source)).or p.scope }
  else if part.kind = "override_modifier" then { p with isOverride := true }
  else if part.kind = "readonly" then { p with isReadonly := true }
  else p

def readParameter (source : List Char) (parameter : SyntaxNode) : Parameter :=
  let pattern := readPattern source parameter
  parameter.children.foldl (addPart source)
    ⟨pattern.1, pattern.2, readType source parameter, false, false, none, [], parameter.range⟩

/-- A node of a parameter list that is a parameter. -/
def isParameter (n : SyntaxNode) : Bool :=
  n.kind == "required_parameter" || n.kind == "optional_parameter"

/-- A member that is called `constructor`. -/
def isCalledConstructor (source : List Char) (member : SyntaxNode) : Bool :=
  (member.childIn? "name").any fun name => name.text source == "constructor"

/-- A method with a body that is called `constructor`. -/
def isConstructor (source : List Char) (member : SyntaxNode) : Bool :=
  member.kind == "method_definition" && isCalledConstructor source member

/-- A signature without a body that is called `constructor`. -/
def isConstructorSignature (source : List Char) (member : SyntaxNode) : Bool :=
  member.kind == "method_signature" && isCalledConstructor source member

/-- What stands between the brackets of a node. -/
def innerRange (n : SyntaxNode) : TextRange := ⟨n.start + 1, n.stop - 1⟩

/-- The first constructor among the members of a body, with the number of its signatures. -/
def findConstructor? (source : List Char) (body : SyntaxNode) : Option Constructor :=
  ((members body).find? (isConstructor source)).bind fun found =>
    (found.childIn? "parameters").map fun list =>
      ⟨(list.namedChildren.filter isParameter).map (readParameter source), innerRange list,
        ((members body).filter (isConstructorSignature source)).length⟩

end FieldInjection.TypeScript
