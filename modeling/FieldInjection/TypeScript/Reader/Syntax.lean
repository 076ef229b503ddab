import FieldInjection.TypeScript.Reader.Declaration

/-!
# A parser for source files

Gives the parts of the syntax tree that are read of a file: class declarations with their members, constructors and
parameters, and import statements. What stands between them is left out.
-/

namespace FieldInjection.TypeScript

mutual

/-- Puts a node below the innermost node around it. -/
def placeIn (x : SyntaxNode) : SyntaxNode → SyntaxNode
  | .node l cs => .node l (placeAmong x cs)

/-- Puts a node among others, or below the one around it. -/
def placeAmong (x : SyntaxNode) : List SyntaxNode → List SyntaxNode
  | [] => [x]
  | c :: cs =>
    if c.start ≤ x.start ∧ x.stop ≤ c.stop then placeIn x c :: cs
    else if x.stop ≤ c.start then x :: c :: cs
    else c :: placeAmong x cs

end

/-- The parser that is used where no other is given. -/
def parseSource : Parser := fun grammar text =>
  let tokens := lex (grammar == .markup) text
  let nesting := nest tokens
  -- a class inside the decorators of another one is found before it but starts behind it
  let declarations := (declarationsOf nesting.trees).mergeSort fun a b => a.start ≤ b.start
  ⟨declarations.foldl (fun root x => placeIn x root) (.node ⟨"program", true, none, ⟨0, text.utf8ByteSize⟩⟩ []),
    !nesting.isWellFormed tokens⟩

end FieldInjection.TypeScript
