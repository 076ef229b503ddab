import FieldInjection.TypeScript.Reader.Tree

/-!
# Walking over token trees

A cursor walks over the trees of one level and knows at each of them whether an operand must follow or has
just ended, whether a line has ended since the tree before, and how many angle brackets of types are open.
Everything that has to find the end of a type or of an expression uses it.
-/

namespace FieldInjection.TypeScript

/-- Where a walk stands between two trees. -/
structure Cursor where
  place : Place
  /-- The last tree is a dot that leads to a member. -/
  afterDot : Bool
  /-- A line has ended inside the comments since the last other tree. -/
  brokenLine : Bool
  /-- The angle brackets of types that are open. -/
  angles : Nat
  deriving DecidableEq, Repr

namespace Cursor

def startAt (place : Place) : Cursor := ⟨place, false, false, 0⟩

/-- Whether a line ends between the last tree that is no comment and this one. -/
def lineEndsBefore (c : Cursor) (t : Tree) : Bool := c.brokenLine || hasLineBreak t.first.blanks

def moveTo (c : Cursor) (place : Place) : Cursor := ⟨place, false, false, c.angles⟩

/-- Signs that cannot stand between the angle brackets of type arguments. -/
def signsOutsideTypes : List String :=
  [";", "=", "==", "===", "!=", "!==", "&&", "||", "??", "+", "*", "/", "%", "**", "++", "--", "!",
    "^", "~", "<<", "<=", "+=", "-=", "*=", "/="]

/-- Signs that go on behind type arguments. None of them can begin the right side of a comparison. -/
def signsBehindTypes : List String :=
  [",", ";", ".", "?.", ":", "|", "&", "||", "&&", "??", "?", "=", "=>", "==", "===", "!=", "!=="]

/-- Whether the trees behind a `<` are type arguments rather than the right side of a comparison: their
brackets close, and a call, a template, a type of arrays, a sign or the end of the expression follows. -/
def areTypeArguments : (angles : Nat) → List Tree → Bool
  | _, [] => false
  | angles, t :: ts =>
    if t.isOperator "<" then areTypeArguments (angles + 1) ts
    else if t.isOperator ">" then
      if angles ≤ 1 then
        -- a name or a number here would make it a comparison
        match skipComments ts with
        | [] => true
        | next :: _ =>
          next.isGroup .paren || next.isGroup .template || next.isGroup .brace ||
            next.isEmptyGroup .square || (signsBehindTypes.any fun sign => next.isOperator sign) ||
            hasLineBreak next.first.blanks
      else areTypeArguments (angles - 1) ts
    else if signsOutsideTypes.any fun sign => t.isOperator sign then false
    else areTypeArguments angles ts

/-- Walks over a tree inside a type. -/
def overType (c : Cursor) (t : Tree) : Cursor :=
  match t with
  | .group .. => c.moveTo .operator
  | .leaf token =>
    match token.kind with
    | .comment => { c with brokenLine := c.brokenLine || hasLineBreak (token.blanks ++ token.text) }
    | .word => c.moveTo (.afterTypeWord c.afterDot token.text)
    | .operator =>
      match token.text with
      | "<" => { c.moveTo .operand with angles := c.angles + 1 }
      | ">" => { c.moveTo .operator with angles := c.angles - 1 }
      | "." => { c.moveTo .operand with afterDot := true }
      -- in a function type the result's type follows
      | "=>" => c.moveTo .operand
      | sign => c.moveTo (c.place.afterOperator sign)
    | .templateText => c.moveTo .operand
    | _ => c.moveTo .operator

/-- Walks over a tree inside an expression; `rest` stands behind it. An angle bracket counts only if it
belongs to types. -/
def overExpression (c : Cursor) (t : Tree) (rest : List Tree) : Cursor :=
  if c.angles > 0 then c.overType t
  else
    match t with
    | .group .. => c.moveTo .operator
    | .leaf token =>
      match token.kind with
      | .comment =>
        { c with brokenLine := c.brokenLine || hasLineBreak (token.blanks ++ token.text) }
      | .word => c.moveTo (.afterWord c.afterDot token.text)
      | .operator =>
        match token.text with
        | "<" =>
          -- where an operand must follow, nothing can be compared
          if c.place ≠ .operator ∨ areTypeArguments 1 rest then
            { c.moveTo .operand with angles := 1 }
          else c.moveTo .operand
        | "." => { c.moveTo .operand with afterDot := true }
        | "?." => { c.moveTo .operand with afterDot := true }
        | sign => c.moveTo (c.place.afterOperator sign)
      | .templateText => c.moveTo .operand
      | _ => c.moveTo .operator

end Cursor

end FieldInjection.TypeScript
