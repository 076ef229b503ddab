/-!
# Lines with their terminators

A line ends behind a line feed, a carriage return, or the two in this order; the last line may have no
terminator.
-/

namespace FieldInjection

/-- The lines of a text, each with its terminator. -/
def linesOf : List Char → List (List Char)
  | [] => []
  | '\r' :: '\n' :: cs => ['\r', '\n'] :: linesOf cs
  | c :: cs =>
    if c = '\n' || c = '\r' then [c] :: linesOf cs
    else
      match linesOf cs with
      | [] => [[c]]
      | line :: rest => (c :: line) :: rest

/-- The lines of a text as strings. -/
def textLines (text : String) : Array String := ((linesOf text.toList).map String.ofList).toArray

def isTerminated (line : String) : Bool :=
  match line.toList.getLast? with
  | some c => c = '\n' || c = '\r'
  | none => false

end FieldInjection
