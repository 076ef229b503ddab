import FieldInjection.Source.Class
import FieldInjection.Syntax.Tree
import FieldInjection.Text.Line

/-!
# The layout of class bodies
-/

namespace FieldInjection.TypeScript

/-- The members of a class body; comments are none. -/
def members (body : SyntaxNode) : List SyntaxNode := body.namedChildren.filter fun n => !n.isComment

/-- The indentation of members where none can be seen: four spaces. -/
def defaultIndent : List Char := [' ', ' ', ' ', ' ']

/-- The blanks before the first member or comment of a body if that begins its line, and else the blanks
of the line with the opening brace and one default indentation. -/
def memberIndent (source : List Char) (body : SyntaxNode) : String :=
  match body.namedChildren.head?.bind fun first => blanksBefore? source first.start with
  | some blanks => String.ofList blanks
  | none => String.ofList (lineIndent source body.start ++ defaultIndent)

/-- How lines end in a text, which its first line decides. -/
def lineEndingOf (source : List Char) : LineEnding :=
  if firstLineEndsWithReturn source then .crlf else .lf

end FieldInjection.TypeScript
