import FieldInjection.Difference.Compaction
import FieldInjection.Difference.Line

/-!
# Unified diffs

A difference is shown in hunks: changes with a few kept lines around them. A hunk begins with a header that
says which lines of either side it covers. A line without a terminator, which can only be the last one of
its side, is followed by a note.
-/

namespace FieldInjection

/-- How many kept lines are shown around a change. -/
def contextSize : Nat := 3

/-- The difference without the kept lines far from any change at its beginning. -/
def trimFirst : List Segment → List Segment
  | [] => []
  | s :: ss => if s.role = .kept then s.dropFirst (s.size - contextSize) :: ss else s :: ss

/-- The difference without the kept lines far from any change at its end. -/
def trimLast : List Segment → List Segment
  | [] => []
  | [s] => if s.role = .kept then [s.dropLast (s.size - contextSize)] else [s]
  | s :: ss => s :: trimLast ss

/-- The hunks of a trimmed difference, the first of them beginning with `group`. -/
def hunksFrom (group : List Segment) : List Segment → List (List Segment)
  | [] => [group]
  | s :: ss =>
    if s.role = .kept && 2 * contextSize < s.size then
      (group ++ [s.dropLast (s.size - contextSize)]) ::
        hunksFrom [s.dropFirst (s.size - contextSize)] ss
    else hunksFrom (group ++ [s]) ss

def hunksOf (ss : List Segment) : List (List Segment) :=
  (hunksFrom [] (trimLast (trimFirst ss))).filter fun hunk => hunk.any fun s => s.role != .kept

/-- The lines of one side that a hunk covers: the number of the first line, and how many lines unless it is
one. An empty range is given by the line before it. -/
def renderLineRange (start stop : Nat) : String :=
  match stop - start with
  | 1 => toString (start + 1)
  | 0 => toString start ++ ",0"
  | n => toString (start + 1) ++ "," ++ toString n

/-- What is written behind a line without a terminator. -/
def missingTerminatorNote : String := "\n\\ No newline at end of file\n"

def renderLine (mark line : String) : String :=
  mark ++ line ++ if isTerminated line then "" else missingTerminatorNote

def renderLines (mark : String) (lines : Array String) (s : Span) : String :=
  String.join ((lines.extract s.start s.stop).toList.map (renderLine mark))

def renderSegment (old new : Array String) (s : Segment) : String :=
  if s.role = .kept then renderLines " " old s.old
  else renderLines "-" old s.old ++ renderLines "+" new s.new

/-- A hunk with its header. -/
def renderHunk (old new : Array String) (hunk : List Segment) : String :=
  match hunk.head?, hunk.getLast? with
  | some first, some last =>
    "@@ -" ++ renderLineRange first.old.start last.old.stop ++ " +" ++
      renderLineRange first.new.start last.new.stop ++ " @@\n" ++
      String.join (hunk.map (renderSegment old new))
  | _, _ => ""

/-- The unified diff of two texts under the names of their files; nothing if they are equal. -/
def unifiedDiff (oldName newName oldText newText : String) : String :=
  let old := textLines oldText
  let new := textLines newText
  match hunksOf (differenceOf old new) with
  | [] => ""
  | hunks =>
    "--- " ++ oldName ++ "\n+++ " ++ newName ++ "\n" ++ String.join (hunks.map (renderHunk old new))

end FieldInjection
