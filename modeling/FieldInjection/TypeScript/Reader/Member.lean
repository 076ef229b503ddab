import FieldInjection.TypeScript.Reader.Cursor

/-!
# The members of a class body

A class body is a sequence of members: comments of their own, methods, method signatures without a body,
and everything else (fields, index signatures, static blocks). A member ends with a semicolon or comma,
with the braces of its body, or at a line end behind which another member begins. `membersOf` cuts the
trees of a body into members, one tree after the other.
-/

namespace FieldInjection.TypeScript

/-- What a member is. -/
inductive MemberKind where
  | comment
  /-- With the tree of its name, its parameters, and whether it has a body. -/
  | method (name : Tree) (parameters : Tree) (hasBody : Bool)
  | other
  deriving Repr

/-- A member with its trees. -/
structure Member where
  kind : MemberKind
  trees : List Tree
  deriving Repr

/-- The part of a member that is being read. -/
inductive MemberPart where
  /-- Behind the `@` of a decorator. -/
  | decoratorName
  /-- Behind the name of a decorator. -/
  | decoratorEnd
  /-- Among modifiers and the name, which is the last tree that can be one. -/
  | head (name : Option Tree)
  /-- Among type parameters behind the name. -/
  | typeParameters (name : Tree)
  /-- Behind the parameters of a method. -/
  | signature (name : Tree) (parameters : Tree)
  /-- In the type of a field. -/
  | fieldType
  /-- In the initializer of a field. -/
  | initializer
  deriving Repr

/-- A member that is being read, its trees last one first. -/
structure OpenMember where
  part : MemberPart
  cursor : Cursor
  trees : List Tree
  /-- It has the modifier `abstract`. -/
  isAbstract : Bool

namespace OpenMember

/-- A member before its first tree. -/
def start : OpenMember := ⟨.head none, .startAt .operator, [], false⟩

/-- The finished member. An abstract method has no other signature to stand for. -/
def finish (m : OpenMember) (hasBody : Bool) : Member :=
  -- what still is in another part never became a method
  let kind :=
    match m.part with
    | .signature name parameters =>
      if m.isAbstract then .other else .method name parameters hasBody
    | _ => .other
  ⟨kind, m.trees.reverse⟩

/-- The finished member, unless nothing has been read. -/
def finish? (m : OpenMember) : List Member :=
  if m.trees.isEmpty then [] else [m.finish false]

end OpenMember

/-- Words that are modifiers when a name follows. -/
def memberModifiers : List String :=
  ["public", "private", "protected", "static", "override", "readonly", "async", "get", "set", "declare",
    "abstract", "accessor"]

/-- A tree that can be the name of a member. -/
def canBeName : Tree → Bool
  | .leaf t => t.kind == .word || t.kind == .string || t.kind == .literal || t.kind == .privateName
  | t => t.isGroup .square

def isModifier (t : Tree) : Bool :=
  match t.word? with
  | some w => memberModifiers.contains w
  | none => false

def joiningWords : List String := ["in", "instanceof", "as", "satisfies"]

/-- A tree with which a new member can begin behind a line end. -/
def canBeginMember (t : Tree) : Bool :=
  canBeName t || t.isOperator "@" || t.isOperator "*"

/-- What becomes of a member when a tree is read. -/
inductive MemberStep where
  /-- The tree belongs to the member, which goes on. -/
  | continues (m : OpenMember)
  /-- The member ends with the tree. -/
  | endsWith (member : Member)
  /-- The member ended before the tree, which separates members. -/
  | separator
  /-- The member ended before the tree, which belongs to the next one. -/
  | endsBefore

namespace OpenMember

def add (m : OpenMember) (part : MemberPart) (cursor : Cursor) (t : Tree) : OpenMember :=
  { m with part, cursor, trees := t :: m.trees }

/-- Whether the next member begins with the tree: a line ends before it, nothing is missing, and the tree
can begin a member. -/
def nextBegins (m : OpenMember) (t : Tree) : Bool :=
  m.cursor.angles == 0 && m.cursor.place == .operator && m.cursor.lineEndsBefore t && canBeginMember t

/-- Reads a tree among modifiers and the name. -/
def headStep (m : OpenMember) (name : Option Tree) (t : Tree) : MemberStep :=
  let onward (name : Option Tree) : MemberStep :=
    .continues (m.add (.head name) (m.cursor.moveTo .operator) t)
  -- a decorator behind a name is the next member's
  if t.isOperator "@" then
    if name.isSome then .endsBefore
    else .continues (m.add .decoratorName (m.cursor.moveTo .operand) t)
  else if t.isOperator "=" then .continues (m.add .initializer (m.cursor.moveTo .operand) t)
  else if t.isOperator ":" then .continues (m.add .fieldType (m.cursor.moveTo .operand) t)
  else if t.isOperator "*" then
    -- the star of a generator stands behind modifiers, never behind a name
    match name with
    | some n => if isModifier n then onward name else .endsBefore
    | none => onward none
  -- a static block
  else if t.isGroup .brace then .endsWith ((m.add .initializer m.cursor t).finish true)
  else if t.isGroup .paren then
    match name with
    | some n => .continues (m.add (.signature n t) (m.cursor.moveTo .operator) t)
    | none => onward none
  else if t.isOperator "<" then
    match name with
    | some n => .continues (m.add (.typeParameters n) (m.cursor.overType t) t)
    | none => onward none
  else if canBeName t then
    match name with
    | some n =>
      -- a word is a modifier once a name follows it
      if isModifier n then
        let m := if n.isWord "abstract" then { m with isAbstract := true } else m
        .continues (m.add (.head (some t)) (m.cursor.moveTo .operator) t)
      else .endsBefore
    | none => onward (some t)
  else onward name

/-- Reads a tree that is neither a comment nor a separator. -/
def treeStep (m : OpenMember) (t : Tree) (rest : List Tree) : MemberStep :=
  match m.part with
  | .decoratorName => .continues (m.add .decoratorEnd (m.cursor.moveTo .operator) t)
  | .decoratorEnd =>
    if m.cursor.angles > 0 ∨ t.isOperator "<" then
      .continues (m.add .decoratorEnd (m.cursor.overType t) t)
    else if t.isOperator "." then .continues (m.add .decoratorName (m.cursor.moveTo .operand) t)
    else if t.isGroup .paren then .continues (m.add (.head none) (m.cursor.moveTo .operator) t)
    else m.headStep none t
  | .head name => m.headStep name t
  | .typeParameters name =>
    let cursor := m.cursor.overType t
    let part := if cursor.angles = 0 then .head (some name) else .typeParameters name
    .continues (m.add part cursor t)
  | .signature _ _ =>
    -- a brace where an operand must follow is an object type of the result
    if t.isGroup .brace ∧ m.cursor.place = .operator ∧ m.cursor.angles = 0 then
      .endsWith ((m.add m.part m.cursor t).finish true)
    -- `is` on a new line goes on with a type predicate
    else if m.nextBegins t ∧ !t.isWord "is" then .endsBefore
    else .continues (m.add m.part (m.cursor.overType t) t)
  | .fieldType =>
    if t.isOperator "=" ∧ m.cursor.angles = 0 then
      .continues (m.add .initializer (m.cursor.moveTo .operand) t)
    else if m.nextBegins t then .endsBefore
    else .continues (m.add .fieldType (m.cursor.overType t) t)
  | .initializer =>
    -- a star, a square bracket or a joining word on a new line goes on with the expression
    if m.nextBegins t ∧ !t.isOperator "*" ∧ !t.isGroup .square ∧
        !(t.word?.any joiningWords.contains) then .endsBefore
    else .continues (m.add .initializer (m.cursor.overExpression t rest) t)

/-- Reads a tree of a class body. -/
def step (m : OpenMember) (t : Tree) (rest : List Tree) : MemberStep :=
  if t.isComment then
    -- inside a member a comment only tells the cursor where lines end
    if m.trees.isEmpty then .endsWith ⟨.comment, [t]⟩
    else .continues (m.add m.part (m.cursor.overType t) t)
  else if t.isOperator ";" then .separator
  -- between angle brackets a comma separates types
  else if t.isOperator "," ∧ m.cursor.angles = 0 then .separator
  else m.treeStep t rest

end OpenMember

/-- Cuts trees into members. -/
def membersFrom (m : OpenMember) : List Tree → List Member
  | [] => m.finish?
  | t :: ts =>
    match m.step t ts with
    | .continues m => membersFrom m ts
    | .endsWith member => member :: membersFrom .start ts
    | .separator => m.finish? ++ membersFrom .start ts
    | .endsBefore =>
      -- the tree begins the next member
      m.finish? ++
        match OpenMember.start.step t ts with
        | .continues m => membersFrom m ts
        | .endsWith member => member :: membersFrom .start ts
        | _ => membersFrom .start ts

def membersOf (body : List Tree) : List Member := membersFrom .start body

end FieldInjection.TypeScript
