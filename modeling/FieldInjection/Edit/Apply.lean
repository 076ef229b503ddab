import FieldInjection.Text.Range

/-!
# Text edits

A text edit replaces a range of a text. A batch of edits is applied in one pass from front to back: the
edits are put in the order of their ranges, edits of one range keeping the order they were given in, and
each must be valid for the text and begin no earlier than the one before it ended.
-/

namespace FieldInjection

/-- The replacement of a range by a text. -/
structure TextEdit where
  range : TextRange
  replacement : String
  deriving DecidableEq, Repr

namespace TextEdit

def insert (offset : Nat) (text : String) : TextEdit := ⟨.empty offset, text⟩

def delete (range : TextRange) : TextEdit := ⟨range, ""⟩

/-- Not behind in the order in which edits are applied: by start, then by end. -/
def le (a b : TextEdit) : Bool :=
  a.range.start < b.range.start ||
    (a.range.start == b.range.start && a.range.stop ≤ b.range.stop)

end TextEdit

/-- Why a batch of edits cannot be applied. -/
inductive EditConflict where
  /-- A range that is not in order or has an end off a character boundary of the text. -/
  | invalidRange (range : TextRange) (size : Nat)
  /-- An edit that begins before the previous one ended. -/
  | overlap (first second : TextRange)
  deriving DecidableEq, Repr

def EditConflict.message : EditConflict → String
  | invalidRange range size =>
    "edit range " ++ range.render ++ " is invalid for a text of " ++ toString size ++ " bytes"
  | overlap first second =>
    "edit range " ++ second.render ++ " overlaps " ++ first.render

/-- The text from `cursor` on with the given edits, which must come in order. `previous` is the range of
the edit that ended at `cursor`. -/
def applyOrdered (text : List Char) (cursor : Nat) (previous : Option TextRange) :
    List TextEdit → Except EditConflict (List Char)
  | [] => .ok (dropBytes text cursor)
  | edit :: rest =>
    if !edit.range.isValidFor text then
      .error (.invalidRange edit.range (byteLength text))
    else if edit.range.start < cursor then
      .error (.overlap (previous.getD edit.range) edit.range)
    else
      match applyOrdered text edit.range.stop (some edit.range) rest with
      | .error conflict => .error conflict
      | .ok tail =>
        .ok (sliceBytes text cursor edit.range.start ++ edit.replacement.toList ++ tail)

/-- Applies a batch of edits to a text. -/
def applyEdits (text : String) (edits : List TextEdit) : Except EditConflict String :=
  (applyOrdered text.toList 0 none (edits.mergeSort TextEdit.le)).map String.ofList

end FieldInjection
