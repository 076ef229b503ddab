/-!
# Segments of a difference

A difference of two sequences of lines is a list of segments, each with its place on both sides: lines that
are kept, lines of the old side that are removed, lines of the new side that are added, or both at once.
-/

namespace FieldInjection

/-- Some consecutive lines. -/
structure Span where
  start : Nat
  size : Nat
  deriving DecidableEq, Repr

namespace Span

def stop (s : Span) : Nat := s.start + s.size

end Span

/-- What becomes of the lines of a segment. -/
inductive Role where
  | kept
  | removed
  | added
  | replaced
  deriving DecidableEq, Repr

/-- Some lines of the old side and some of the new one. -/
structure Segment where
  role : Role
  old : Span
  new : Span
  deriving DecidableEq, Repr

namespace Segment

/-- Lines that are the same on both sides. -/
def kept (i j size : Nat) : Segment := ⟨.kept, ⟨i, size⟩, ⟨j, size⟩⟩

/-- Lines of the old side that the new side does not have behind its line `j`. -/
def removed (i size j : Nat) : Segment := ⟨.removed, ⟨i, size⟩, ⟨j, 0⟩⟩

/-- Lines of the new side that the old side does not have behind its line `i`. -/
def added (i j size : Nat) : Segment := ⟨.added, ⟨i, 0⟩, ⟨j, size⟩⟩

/-- The number of lines, those of the longer side. -/
def size (s : Segment) : Nat := max s.old.size s.new.size

/-- The segment with another size on the sides where it has lines. -/
def withSize (s : Segment) (n : Nat) : Segment :=
  { s with
    old.size := if s.role = .added then 0 else n
    new.size := if s.role = .removed then 0 else n }

def moveDown (s : Segment) (n : Nat) : Segment :=
  { s with old.start := s.old.start + n, new.start := s.new.start + n }

def moveUp (s : Segment) (n : Nat) : Segment :=
  { s with old.start := s.old.start - n, new.start := s.new.start - n }

/-- The segment with `n` more lines at its end. -/
def extendDown (s : Segment) (n : Nat) : Segment := s.withSize (s.size + n)

/-- The segment with `n` more lines at its beginning. -/
def extendUp (s : Segment) (n : Nat) : Segment := (s.withSize (s.size + n)).moveUp n

/-- The segment without its last `n` lines. -/
def dropLast (s : Segment) (n : Nat) : Segment := s.withSize (s.size - n)

/-- The segment without its first `n` lines. -/
def dropFirst (s : Segment) (n : Nat) : Segment := (s.withSize (s.size - n)).moveDown n

end Segment

/-- How many lines are the same on both sides from lines `i` and `j` on, at most `n`. -/
def commonBelow (old new : Array String) (i j : Nat) : Nat → Nat
  | 0 => 0
  | n + 1 => if old[i]? = new[j]? then commonBelow old new (i + 1) (j + 1) n + 1 else 0

/-- How many lines are the same on both sides above lines `i` and `j`, at most `n`. -/
def commonAbove (old new : Array String) (i j : Nat) : Nat → Nat
  | 0 => 0
  | n + 1 => if old[i - 1]? = new[j - 1]? then commonAbove old new (i - 1) (j - 1) n + 1 else 0

end FieldInjection
