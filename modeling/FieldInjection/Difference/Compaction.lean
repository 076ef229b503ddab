import FieldInjection.Difference.Script

/-!
# Compacting a difference

Of the shortest differences of two texts one is chosen in which changes stand together: first every removal
and then every addition is moved up as far as it goes and down as far as it goes from there. Added lines
move past kept ones where the lines at their ends agree, removals and additions trade places, and changes
of one role that meet become one. A segment that trades places keeps the positions it has.

At the end all changes between two kept segments become one segment.
-/

namespace FieldInjection

/-- A list of segments seen from one of them; those above it come nearest first. -/
structure SegmentFocus where
  above : List Segment
  focus : Segment
  below : List Segment
  deriving Repr

/-- The lines of some segments, and one more for each of them. -/
def totalWeight : List Segment → Nat
  | [] => 0
  | s :: ss => s.size + 1 + totalWeight ss

/-- Adds `n` kept lines in front of some segments. -/
def keepBefore (n i j : Nat) : List Segment → List Segment
  | s :: ss => if s.role = .kept then s.extendUp n :: ss else .kept i j n :: s :: ss
  | [] => [.kept i j n]

/-- Adds `n` kept lines behind some segments, of which the last one comes first. -/
def keepAfter (n i j : Nat) : List Segment → List Segment
  | s :: ss => if s.role = .kept then s.extendDown n :: ss else .kept i j n :: s :: ss
  | [] => [.kept i j n]

/-- A list of segments without its first one if that is empty. -/
def dropEmpty (s : Segment) (ss : List Segment) : List Segment := if s.size = 0 then ss else s :: ss

theorem totalWeight_cons (s : Segment) (ss : List Segment) :
    totalWeight (s :: ss) = s.size + 1 + totalWeight ss := rfl

theorem totalWeight_dropEmpty_le (s : Segment) (ss : List Segment) :
    totalWeight (dropEmpty s ss) ≤ s.size + 1 + totalWeight ss := by
  unfold dropEmpty
  split
  · omega
  · exact Nat.le_of_eq (totalWeight_cons s ss)

theorem size_withSize_le (s : Segment) (n : Nat) : (s.withSize n).size ≤ n := by
  unfold Segment.withSize Segment.size
  dsimp only
  split <;> split <;> omega

theorem totalWeight_dropLast_lt {s : Segment} {n : Nat} (h : 0 < n ∧ n ≤ s.size)
    (ss : List Segment) : totalWeight (dropEmpty (s.dropLast n) ss) < totalWeight (s :: ss) := by
  have h1 := totalWeight_dropEmpty_le (s.dropLast n) ss
  have h2 : (s.dropLast n).size ≤ s.size - n := size_withSize_le s _
  rw [totalWeight_cons]
  omega

theorem totalWeight_dropFirst_lt {s : Segment} {n : Nat} (h : 0 < n ∧ n ≤ s.size)
    (ss : List Segment) : totalWeight (dropEmpty (s.dropFirst n) ss) < totalWeight (s :: ss) := by
  have h1 := totalWeight_dropEmpty_le (s.dropFirst n) ss
  have h2 : (s.dropFirst n).size ≤ s.size - n := size_withSize_le s _
  rw [totalWeight_cons]
  omega

/-- Moves a change up as far as it goes. -/
def shiftUp (old new : Array String) (above : List Segment) (s : Segment) (below : List Segment) :
    SegmentFocus :=
  match above with
  | [] => ⟨[], s, below⟩
  | prev :: rest =>
    if prev.role = .kept then
      let n := commonAbove old new prev.old.stop s.new.stop (min prev.old.size s.new.size)
      -- the lines that are passed are kept below the change instead of above it
      if _h : 0 < n ∧ n ≤ prev.size then
        shiftUp old new (dropEmpty (prev.dropLast n) rest) (s.moveUp n)
          (keepBefore n (prev.old.stop - n) (s.new.stop - n) below)
      else if prev.size = 0 then shiftUp old new rest s below
      else ⟨prev :: rest, s, below⟩
    -- two changes of one role meet and move on as one
    else if prev.role = s.role then shiftUp old new rest (prev.extendDown s.size) below
    else shiftUp old new rest s (prev :: below)
  termination_by totalWeight above
  decreasing_by
    · exact totalWeight_dropLast_lt _h rest
    all_goals rw [totalWeight_cons]; omega

/-- Moves a change down as far as it goes. -/
def shiftDown (old new : Array String) (above : List Segment) (s : Segment) (below : List Segment) :
    SegmentFocus :=
  match below with
  | [] => ⟨above, s, []⟩
  | next :: rest =>
    if next.role = .kept then
      let n := commonBelow old new next.old.start s.new.start (min next.old.size s.new.size)
      -- the lines that are passed are kept above the change instead of below it
      if _h : 0 < n ∧ n ≤ next.size then
        shiftDown old new (keepAfter n next.old.start s.new.start above) (s.moveDown n)
          (dropEmpty (next.dropFirst n) rest)
      else if next.size = 0 then shiftDown old new above s rest
      else ⟨above, s, next :: rest⟩
    -- the lower change is taken up and its lines are moved along
    else if next.role = s.role then shiftDown old new above (s.extendDown next.size) rest
    else shiftDown old new (next :: above) s rest
  termination_by totalWeight below
  decreasing_by
    · exact totalWeight_dropFirst_lt _h rest
    all_goals rw [totalWeight_cons]; omega

/-- Compacts the changes of one role below the segments that are done, of which the last one comes first.
A change that was moved has nothing below it that was not below it before, so a turn for each segment is
enough. -/
def compactRole (role : Role) (old new : Array String) (done : List Segment) :
    Nat → List Segment → List Segment
  | 0, rest => done.reverse ++ rest
  | _ + 1, [] => done.reverse
  | turns + 1, s :: rest =>
    if s.role = role then
      let up := shiftUp old new done s rest
      let down := shiftDown old new up.above up.focus up.below
      compactRole role old new (down.focus :: down.above) turns down.below
    else compactRole role old new (s :: done) turns rest

/-- Compacts the removals and then the additions of a difference. -/
def compact (old new : Array String) (ss : List Segment) : List Segment :=
  let ss := compactRole .removed old new [] (totalWeight ss + 1) ss
  compactRole .added old new [] (totalWeight ss + 1) ss

/-- A segment that takes up one more change: the removed lines are taken from the removals and the added
ones from the additions. -/
def Segment.absorb (s change : Segment) : Segment :=
  match change.role, s.role with
  | .removed, .added => ⟨.replaced, change.old, s.new⟩
  | .removed, _ => { s with old.size := s.old.size + change.old.size }
  | _, .removed => ⟨.replaced, s.old, change.new⟩
  | _, _ => { s with new.size := s.new.size + change.new.size }

/-- Joins kept segments with kept ones and changes with changes. -/
def joinSegments : List Segment → List Segment
  | [] => []
  | s :: ss => go s ss
where
  /-- Joins segments into the one before them as long as they go with it. -/
  go (s : Segment) : List Segment → List Segment
    | [] => [s]
    | t :: ss =>
      if s.role = .kept then
        if t.role = .kept then go (s.extendDown t.size) ss else s :: go t ss
      else if t.role = .kept then s :: go t ss
      else go (s.absorb t) ss

/-- The difference of two texts in lines. -/
def differenceOf (old new : Array String) : List Segment :=
  joinSegments (compact old new (shortestScript old new ⟨⟨0, old.size⟩, ⟨0, new.size⟩⟩))

end FieldInjection
