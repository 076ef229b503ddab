import FieldInjection.Text.Offset

/-!
# Ranges of a text

A range is given by two byte offsets. It is *valid* for a text when its ends are in order and both are
boundaries of that text.
-/

namespace FieldInjection

/-- The bytes from `start` up to but not including `stop`. -/
structure TextRange where
  start : Nat
  stop : Nat
  deriving DecidableEq, Repr, Inhabited

namespace TextRange

def empty (offset : Nat) : TextRange := ⟨offset, offset⟩

/-- The number of bytes in the range. -/
def size (r : TextRange) : Nat := r.stop - r.start

/-- A range is empty when its ends coincide. -/
def isEmpty (r : TextRange) : Bool := r.start == r.stop

/-- The range is in order and both its ends are boundaries of the text. -/
def isValidFor (r : TextRange) (text : List Char) : Bool :=
  r.start ≤ r.stop && isBoundary text r.start && isBoundary text r.stop

/-- Written as two offsets with two dots between them. -/
def render (r : TextRange) : String := s!"{r.start}..{r.stop}"

end TextRange

end FieldInjection
