import FieldInjection.Syntax.Tree
import FieldInjection.TypeScript.Reader.ClassHead
import FieldInjection.TypeScript.Reader.Cursor

/-!
# Parameters and their decorators

The trees between the parentheses of a constructor are cut at their commas into parameters, and each
parameter into its parts: decorators, modifiers, the pattern, the declared type and the default value.
Comments are parts of their own, except inside one of the others.
-/

namespace FieldInjection.TypeScript

/-- The part of a parameter in which its type or value begins or not. -/
inductive ParameterRegion where
  /-- Decorators, modifiers and the pattern. -/
  | pattern
  | declaredType
  | value
  deriving DecidableEq, Repr

/-- Where a walk over a parameter list stands. -/
structure ParameterCursor where
  region : ParameterRegion
  cursor : Cursor
  /-- The head of a class in a value, while the walk is in one. -/
  head : Option ClassHead

namespace ParameterCursor

/-- The cursor at the beginning of a region. -/
def atStartOf (region : ParameterRegion) : ParameterCursor := ⟨region, .startAt .operand, none⟩

/-- The cursor before a parameter. -/
def start : ParameterCursor := .atStartOf .pattern

/-- The cursor before an argument of a call, which is an expression from its beginning. -/
def atArgument : ParameterCursor := .atStartOf .value

/-- Whether a comma here separates. Between angle brackets of types and in the head of a class it does
not. -/
def canSeparate (c : ParameterCursor) : Bool := c.cursor.angles == 0 && c.head.isNone

/-- Walks over a tree of a value; `rest` stands behind it. -/
def overValue (c : ParameterCursor) (t : Tree) (rest : List Tree) : ParameterCursor :=
  match c.head with
  -- behind its body the class is an operand that has ended
  | some h => ⟨.value, c.cursor.moveTo .operator, h.overTree t⟩
  | none =>
    let beginsClass := t.isWord "class" && !c.cursor.afterDot && (bodyBehindKeyword? rest).isSome
    ⟨.value, c.cursor.overExpression t rest, if beginsClass then some ⟨0, 0⟩ else none⟩

/-- Walks over a tree that separates nothing; `rest` stands behind it. -/
def overTree (c : ParameterCursor) (t : Tree) (rest : List Tree) : ParameterCursor :=
  match c.region with
  | .value => c.overValue t rest
  | region =>
    if c.cursor.angles = 0 ∧ t.isOperator "=" then .atStartOf .value
    -- a colon in a type belongs to the type
    else if region = .pattern ∧ c.cursor.angles = 0 ∧ t.isOperator ":" then .atStartOf .declaredType
    else ⟨region, c.cursor.overType t, none⟩

end ParameterCursor

/-- Cuts trees at the commas that separate. `initial` is the cursor behind a comma and `piece` what has been
read since the last one, last tree first. -/
def splitAtCommas (initial : ParameterCursor) (c : ParameterCursor) (piece : List Tree) :
    List Tree → List (List Tree)
  | [] => [piece.reverse]
  | t :: ts =>
    if t.isOperator "," ∧ c.canSeparate then
      piece.reverse :: splitAtCommas initial initial [] ts
    else splitAtCommas initial (c.overTree t ts) (t :: piece) ts

/-- The pieces between commas without the comments at their ends, of those that hold anything else. -/
def piecesOf (initial : ParameterCursor) (ts : List Tree) : List (List Tree) :=
  ((splitAtCommas initial initial [] ts).map fun piece =>
    skipComments (trimComments piece)).filter fun piece => !piece.isEmpty

/-- A part of a parameter. -/
inductive ParameterPart where
  | comment (tree : Tree)
  /-- The trees from the `@` on. -/
  | decorator (trees : List Tree)
  | modifier (tree : Tree)
  | pattern (trees : List Tree)
  /-- The trees behind the colon. -/
  | declaredType (trees : List Tree)
  /-- The trees behind the equals sign. -/
  | value (trees : List Tree)
  deriving Repr

/-- How many trees follow the `@` of a decorator: a parenthesized expression, or a dotted name with type
arguments and arguments if it is called. Comments at the end do not belong to it. -/
def decoratorLength : (stage : Nat) → (angles : Nat) → List Tree → Nat
  | _, _, [] => 0
  | stage, angles, t :: ts =>
    if t.isComment then
      -- counted only if something behind it is
      match decoratorLength stage angles ts with
      | 0 => 0
      | n + 1 => n + 2
    else if angles > 0 then
      let angles := if t.isOperator "<" then angles + 1 else if t.isOperator ">" then angles - 1 else angles
      1 + decoratorLength stage angles ts
    else
      match stage with
      | 0 =>
        -- the name, or a parenthesized expression
        if t.isGroup .paren then 1 else if t.word?.isSome then 1 + decoratorLength 1 0 ts else 0
      | _ =>
        -- behind a name: a member of it, its type arguments, or the call
        if t.isOperator "." then 1 + decoratorLength 0 0 ts
        else if t.isOperator "<" then 1 + decoratorLength 1 1 ts
        else if t.isGroup .paren then 1
        else 0

/-- Words that are modifiers of a parameter when a pattern follows. -/
def parameterModifiers : List String := ["public", "private", "protected", "override", "readonly"]

/-- A tree with which a pattern can begin. -/
def canBeginPattern (t : Tree) : Bool :=
  t.word?.isSome || t.isGroup .brace || t.isGroup .square || t.isOperator "..."

/-- The parts behind the modifiers: the pattern up to a question mark, colon or equals sign, then the
declared type up to an equals sign, then the default value. `c` is the cursor, `trees` what has been read
of the part, last tree first. -/
def patternParts (c : ParameterCursor) (trees : List Tree) : List Tree → List ParameterPart
  | [] =>
    match c.region with
    | .pattern => [.pattern trees.reverse]
    | .declaredType => [.declaredType trees.reverse]
    | .value => [.value trees.reverse]
  | t :: ts =>
    let next := c.overTree t ts
    if next.region = c.region then
      -- the question mark is no part of the name
      if c.region = .pattern ∧ t.isOperator "?" then patternParts next trees ts
      else patternParts next (t :: trees) ts
    else
      match c.region with
      | .pattern => .pattern trees.reverse :: patternParts next [] ts
      | _ => .declaredType trees.reverse :: patternParts next [] ts

def parameterParts (trees : List Tree) : List ParameterPart :=
  match trees with
  | [] => []
  | t :: ts =>
    if t.isComment then .comment t :: parameterParts ts
    else if t.isOperator "@" then
      let n := decoratorLength 0 0 ts
      .decorator (t :: ts.take n) :: parameterParts (ts.drop n)
    else
      match t.word? with
      | some w =>
        -- otherwise the word is the parameter's name
        if parameterModifiers.contains w ∧ (skipComments ts).head?.any canBeginPattern then
          .modifier t :: parameterParts ts
        else patternParts .start [] (t :: ts)
      | none => patternParts .start [] (t :: ts)
termination_by trees.length
decreasing_by all_goals (simp only [List.length_cons, List.length_drop]; omega)

/-- From the start of the first tree to the end of the last. -/
def rangeOf (trees : List Tree) : TextRange :=
  match trees.head?, trees.getLast? with
  | some first, some last => ⟨first.start, last.stop⟩
  | _, _ => .empty 0

/-- The node of a rule over some trees, with the children that are told apart. -/
def ruleNode (kind : String) (trees : List Tree) (children : List SyntaxNode) : SyntaxNode :=
  .node ⟨kind, true, none, rangeOf trees⟩ children

/-- The node of a token that the grammar spells out. -/
def tokenNode (t : Token) : SyntaxNode := .node ⟨t.text, false, none, ⟨t.start, t.stop⟩⟩ []

/-- A node in a field of the node around it. -/
def inField (field : String) : SyntaxNode → SyntaxNode
  | .node l cs => .node { l with field? := some field } cs

/-- Brackets with nodes between them. -/
def bracketNode (kind : String) (opening closing : Token) (inner : List SyntaxNode) : SyntaxNode :=
  .node ⟨kind, true, none, ⟨opening.start, closing.stop⟩⟩
    (tokenNode opening :: inner ++ [tokenNode closing])

/-- Trees of which only a comment in front is told apart from the rest. -/
def operandNodes (kind : String) (trees : List Tree) : List SyntaxNode :=
  let (comments, rest) := trees.span Tree.isComment
  comments.map (fun t => ruleNode "comment" [t] []) ++ if rest.isEmpty then [] else [ruleNode kind rest []]

/-- The node of a decorator. What follows the `@` is a call of the name before the arguments, or stands for
itself. -/
def decoratorNode (trees : List Tree) : SyntaxNode :=
  let (comments, expression) := (trees.drop 1).span Tree.isComment
  let content : SyntaxNode :=
    match expression.head?, expression.getLast? with
    | some first, some (.group .paren opening inner closing) =>
      -- a parenthesized expression as a whole is no call
      if first.isGroup .paren then ruleNode "parenthesized_expression" expression []
      else
        let callee := expression.dropLast.takeWhile fun t => !t.isOperator "<"
        let arguments := (piecesOf .atArgument inner).map fun piece => ruleNode "expression" piece []
        ruleNode "call_expression" expression
          [inField "function" (ruleNode "expression" (trimComments callee) []),
            inField "arguments" (bracketNode "arguments" opening closing arguments)]
    | _, _ => ruleNode "expression" expression []
  ruleNode "decorator" trees (comments.map (fun t => ruleNode "comment" [t] []) ++
    if expression.isEmpty then [] else [content])

/-- The node of a pattern. -/
def patternNode (trees : List Tree) : SyntaxNode :=
  match trimComments trees with
  | [] => ruleNode "identifier" trees []
  | t :: ts =>
    if t.isOperator "..." then ruleNode "rest_pattern" (t :: ts) (operandNodes "identifier" ts)
    else if t.isGroup .brace then ruleNode "object_pattern" [t] []
    else if t.isGroup .square then ruleNode "array_pattern" [t] []
    else ruleNode "identifier" (t :: ts) []

def partNode : ParameterPart → SyntaxNode
  | .comment t => ruleNode "comment" [t] []
  | .decorator trees => decoratorNode trees
  | .modifier t =>
    if t.isWord "override" then ruleNode "override_modifier" [t] []
    else if t.isWord "readonly" then tokenNode t.first
    else ruleNode "accessibility_modifier" [t] []
  | .pattern trees => inField "pattern" (patternNode trees)
  | .declaredType trees =>
    inField "type" (ruleNode "type_annotation" trees (operandNodes "type" (trimComments trees)))
  | .value trees => inField "value" (ruleNode "expression" trees [])

def parameterNode (trees : List Tree) : SyntaxNode :=
  ruleNode "required_parameter" trees ((parameterParts trees).map partNode)

/-- The node of a parameter list. -/
def parametersNode (opening closing : Token) (inner : List Tree) : SyntaxNode :=
  bracketNode "formal_parameters" opening closing ((piecesOf .start inner).map parameterNode)

end FieldInjection.TypeScript
