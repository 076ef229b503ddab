import FieldInjection.Text.Offset

/-!
# Lines and blanks

What stands before an offset in its line, and how the lines of a text end.
-/

namespace FieldInjection

def isSpaceOrTab (c : Char) : Bool := c = ' ' || c = '\t'

/-- What stands behind the last line feed of a text. -/
def lastLine (cs : List Char) : List Char := (cs.reverse.takeWhile (· ≠ '\n')).reverse

/-- What stands before an offset in its line. -/
def lineBefore (text : List Char) (offset : Nat) : List Char := lastLine (takeBytes text offset)

/-- What stands before an offset in its line, if that is nothing but blanks. -/
def blanksBefore? (text : List Char) (offset : Nat) : Option (List Char) :=
  let line := lineBefore text offset
  if line.all isSpaceOrTab then some line else none

/-- The blanks at the beginning of the line of an offset. -/
def lineIndent (text : List Char) (offset : Nat) : List Char :=
  (lineBefore text offset ++ dropBytes text offset).takeWhile isSpaceOrTab

/-- Whether the first line of a text ends with a carriage return and a line feed. -/
def firstLineEndsWithReturn : List Char → Bool
  | '\r' :: '\n' :: _ => true
  | '\n' :: _ => false
  | _ :: cs => firstLineEndsWithReturn cs
  | [] => false

end FieldInjection
