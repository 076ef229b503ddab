import FieldInjection.TypeScript.Reader.ClassHead
import FieldInjection.TypeScript.Reader.ImportStatement
import FieldInjection.TypeScript.Reader.Member

/-!
# Finding declarations

Class declarations stand where statements stand: at the top of a text and, at any depth, inside blocks.
A class in an expression is no declaration. To tell the two apart, the trees of each level are walked with
the knowledge of what the level holds (statements, members of a class, entries of a record, expressions)
and of whether a statement can begin. Import statements are found on the way.
-/

namespace FieldInjection.TypeScript

/-- A class declaration in the source: where it starts, its name, and its body. -/
structure ClassSyntax where
  start : Nat
  name : Tree
  opening : Token
  body : List Tree
  closing : Token
  deriving Repr

/-- The node of a member. -/
def Member.node (m : Member) : SyntaxNode :=
  match m.kind with
  | .comment => ruleNode "comment" m.trees []
  | .other => ruleNode "public_field_definition" m.trees []
  | .method name parameters hasBody =>
    let list :=
      match parameters with
      | .group _ opening inner closing => [inField "parameters" (parametersNode opening closing inner)]
      | .leaf _ => []
    ruleNode (if hasBody then "method_definition" else "method_signature") m.trees
      (inField "name" (ruleNode "property_identifier" [name] []) :: list)

/-- The node of a class declaration. -/
def ClassSyntax.node (c : ClassSyntax) : SyntaxNode :=
  .node ⟨"class_declaration", true, none, ⟨c.start, c.closing.stop⟩⟩
    [inField "name" (ruleNode "type_identifier" [c.name] []),
      inField "body" (bracketNode "class_body" c.opening c.closing ((membersOf c.body).map Member.node))]

/-- What the trees of a level are. -/
inductive Level where
  | statements
  | members
  | entries
  | expressions
  /-- The content of a markup element. -/
  | markup
  deriving DecidableEq, Repr

/-- The name of the class whose keyword stands before some trees. -/
def nameBehindKeyword? (behind : List Tree) : Option Tree :=
  match skipComments behind with
  | [] => none
  | t :: _ =>
    -- a class without a name has its clauses right behind the keyword
    match t.word? with
    | some "extends" => none
    | some "implements" => none
    | some _ => some t
    | none => none

/-- Where a walk over a level stands. -/
structure Walk where
  level : Level
  place : Place
  afterDot : Bool
  /-- The last tree, if it is a word. -/
  lastWord : Option String
  /-- The last tree is a word with which a statement began. -/
  afterFirstWord : Bool
  /-- Between `case` and its colon. -/
  inCase : Bool
  /-- Where the decorators or the modifier `abstract` before a class begin. -/
  declarationStart : Option Nat
  /-- The head of a class, while the walk is in one. -/
  head : Option ClassHead
  deriving Repr

namespace Walk

/-- The walk before the first tree of a level. -/
def start (level : Level) : Walk :=
  let place : Place :=
    match level with
    | .statements => .statement
    | .members => .statement
    | _ => .operand
  ⟨level, place, false, none, false, false, none, none⟩

/-- Whether a statement can begin with the tree. Behind `void` it can on a new line, since the word was a
type then. -/
def canBeginStatement (w : Walk) (t : Tree) : Bool :=
  w.level == .statements && !w.afterDot && w.head.isNone &&
    (w.place == .statement || w.place == .operator ||
      (w.place == .operandOrBody && hasLineBreak t.first.blanks))

/-- What a group at this place holds. -/
def levelInside (w : Walk) (b : Bracket) : Level :=
  match b with
  | .element => .markup
  | .brace =>
    match w.head with
    -- between angle brackets a brace is an object type, otherwise a class body
    | some h => if h.angles = 0 then .members else .entries
    | none =>
      if w.level = .markup then .expressions
      -- `export default {`
      else if w.level = .statements ∧ w.lastWord = some "default" then .entries
      else if w.place.opensBlock then .statements
      else .entries
  | _ => .expressions

/-- The declaration that a tree begins. -/
def found (w : Walk) (t : Tree) (behind : List Tree) : Option SyntaxNode :=
  if w.canBeginStatement t then
    if t.isWord "class" then
      match nameBehindKeyword? behind, bodyBehindKeyword? behind with
      | some name, some (opening, body, closing) =>
        some (ClassSyntax.node ⟨w.declarationStart.getD t.start, name, opening, body, closing⟩)
      | _, _ => none
    else if t.isWord "import" then importNode? t behind
    else none
  else none

def overWord (w : Walk) (t : Tree) (word : String) (behind : List Tree) : Walk :=
  let begins := w.canBeginStatement t
  -- `class` can also be a name; it is the keyword where a body follows
  let head :=
    if word = "class" ∧ !w.afterDot ∧ (bodyBehindKeyword? behind).isSome then some ⟨0, 0⟩ else none
  -- decorators and `abstract` belong to the class; `export` and `default` do not
  let declarationStart :=
    if !begins then w.declarationStart
    else if word = "abstract" then w.declarationStart.or (some t.start)
    else none
  let place :=
    if w.afterDot then .operator
    else if word = "default" ∧ w.level = .statements then .statement
    -- in the head of a loop an operand follows `of`
    else if word = "of" ∧ w.level = .expressions ∧ w.place = .operator then .operand
    else Place.afterWord false word
  { w with
    place, head, declarationStart
    afterDot := false
    lastWord := some word
    afterFirstWord := begins && w.place == .statement
    inCase := w.inCase || (begins && word == "case") }

def overOperator (w : Walk) (t : Tree) (sign : String) : Walk :=
  -- the colon of a label or a case, behind which a statement begins
  let endsLabel :=
    sign == ":" && w.level == .statements &&
      (w.inCase || w.afterFirstWord || w.lastWord == some "default")
  let place : Place :=
    if endsLabel then .statement
    else if sign = ">" then .operator
    else w.place.afterOperator sign
  -- the other signs may be part of a decorator
  let declarationStart :=
    if sign = "@" then
      if w.canBeginStatement t then w.declarationStart.or (some t.start) else w.declarationStart
    else if [".", "<", ">", ","].contains sign then w.declarationStart
    else none
  { w with
    place, declarationStart
    afterDot := sign == "." || sign == "?."
    lastWord := none
    afterFirstWord := false
    inCase := w.inCase && !endsLabel }

/-- Walks over anything that is neither a word nor an operator. -/
def overOther (w : Walk) (t : Tree) : Walk :=
  let place : Place :=
    match t with
    | .leaf token => if token.kind == .templateText || token.kind == .elementText then .operand else .operator
    | .group b _ _ _ =>
      if b = .brace ∧ w.level = .statements ∧ w.place.opensBlock then .statement else .operator
  { w with
    place
    afterDot := false
    lastWord := none
    afterFirstWord := false
    -- the arguments of a decorator
    declarationStart := if t.isGroup .paren then w.declarationStart else none }

def overTree (w : Walk) (t : Tree) (behind : List Tree) : Walk :=
  if t.isComment then w
  else
    match w.head with
    | some h =>
      match h.overTree t with
      | some h => { w with head := some h }
      | none =>
        -- the body is over: a declaration ends like a block, an expression like an operand
        { Walk.start w.level with
          place := if w.level = .statements then .statement else .operator
          inCase := w.inCase }
    | none =>
      match t with
      | .leaf token =>
        match token.kind with
        | .word => w.overWord t token.text behind
        | .operator => w.overOperator t token.text
        | _ => w.overOther t
      | .group .. => w.overOther t

end Walk

mutual

/-- The declarations inside a tree, if it is a group that holds a level of the given kind. -/
def Tree.declarations (level : Level) : Tree → List SyntaxNode
  | .leaf _ => []
  | .group _ _ inner _ => declarationsFrom (.start level) inner

/-- The declarations on the rest of a level and below. -/
def declarationsFrom (w : Walk) : List Tree → List SyntaxNode
  | [] => []
  | t :: ts =>
    let inside :=
      match t with
      | .leaf _ => Level.expressions
      | .group b _ _ _ => w.levelInside b
    -- a class comes before the classes in its body
    (w.found t ts).toList ++ t.declarations inside ++ declarationsFrom (w.overTree t ts) ts

end

def declarationsOf (ts : List Tree) : List SyntaxNode := declarationsFrom (.start .statements) ts

end FieldInjection.TypeScript
