import FieldInjection.TypeScript.Reader.Tree

/-!
# The head of a class

Between the keyword `class` and the body stand the name, type parameters and the clauses `extends` and
`implements`. Commas separate the parts of a clause and nothing else there, and braces may belong to types or
to a class in the clause `extends`, so a walk over the head has to know where the body begins.
-/

namespace FieldInjection.TypeScript

/-- The head of a class, before its body. -/
structure ClassHead where
  /-- Open angle brackets. -/
  angles : Nat
  /-- Classes in the head whose bodies come first. -/
  inner : Nat
  deriving DecidableEq, Repr

/-- Walks over a tree in the head of a class; `none` behind the body. -/
def ClassHead.overTree (h : ClassHead) (t : Tree) : Option ClassHead :=
  if t.isOperator "<" then some { h with angles := h.angles + 1 }
  else if t.isOperator ">" then some { h with angles := h.angles - 1 }
  -- nothing between angle brackets opens a body
  else if h.angles > 0 then some h
  else if t.isWord "class" then some { h with inner := h.inner + 1 }
  -- a brace is the body of the innermost class whose body is still to come
  else if t.isGroup .brace then if h.inner = 0 then none else some { h with inner := h.inner - 1 }
  else some h

/-- Signs that do not stand in the head of a class. -/
def signsOutsideHeads : List String := [";", "=", "=>", ":", "?", "!"]

/-- The body behind the head of a class. -/
def classBody? (h : ClassHead) : List Tree → Option (Token × List Tree × Token)
  | [] => none
  | t :: ts =>
    if h.angles = 0 ∧ signsOutsideHeads.any (fun sign => t.isOperator sign) then none
    else
      match h.overTree t with
      | some h => classBody? h ts
      | none =>
        match t with
        | .group _ opening inner closing => some (opening, inner, closing)
        | .leaf _ => none

/-- The body of the class whose keyword stands before some trees; none if the word is no such keyword. -/
def bodyBehindKeyword? (behind : List Tree) : Option (Token × List Tree × Token) :=
  match skipComments behind with
  | [] => none
  | t :: ts =>
    -- a name, a clause, the body or type parameters
    if t.word?.isSome || t.isGroup .brace || t.isOperator "<" then classBody? ⟨0, 0⟩ (t :: ts) else none

end FieldInjection.TypeScript
