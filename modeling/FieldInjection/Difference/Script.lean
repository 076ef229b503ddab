import FieldInjection.Difference.Segment

/-!
# A shortest difference

Two stretches of lines are split where a shortest path through their edit graph passes its middle, and the
halves are solved on their own, after the lines that are common at either end have been set aside.

A path walks from the top left of the graph to its bottom right: a step to the right removes a line, a step
down adds one, and diagonal steps keep lines. After `d` steps that are not diagonal, the reachable diagonals
are those from `d` down to `-d` by twos; a `Front` holds how far each of them reaches. Two fronts, one from
either corner, are advanced in turn until they meet.
-/

namespace FieldInjection

/-- Two stretches of lines to be compared. -/
structure Stretch where
  old : Span
  new : Span
  deriving DecidableEq, Repr

namespace Stretch

/-- The diagonal of the corner opposite to the first one. -/
def farDiagonal (s : Stretch) : Int := (s.old.size : Int) - s.new.size

end Stretch

/-- How far the diagonals `d`, `d - 2`, …, `-d` reach, counted in lines of the old side, and where each of
them was entered. -/
structure Front where
  entered : Array Nat
  reached : Array Nat
  deriving Repr

namespace Front

def start : Front := ⟨#[], #[]⟩

/-- The `i`-th diagonal of round `d`. -/
def diagonal (d i : Nat) : Int := (d : Int) - 2 * i

/-- Where the `i`-th diagonal of round `d` is entered: from the diagonal above it if that reaches further,
and else from the one below it by one line more. -/
def entry (previous : Front) (d i : Nat) : Nat :=
  -- the outermost diagonals have a neighbour on one side only
  if d = 0 then 0
  else if i = d then previous.reached.getD (d - 1) 0
  else if i = 0 then previous.reached.getD 0 0 + 1
  else
    let above := previous.reached.getD (i - 1) 0
    let below := previous.reached.getD i 0
    if below < above then above else below + 1

/-- The lines of the new side where the old side has come to line `x` of the `i`-th diagonal. -/
def across (d i x : Nat) : Nat := x + 2 * i - d

/-- How far a diagonal reaches in round `d`, if the front has it. -/
def reach? (f : Front) (d : Nat) (k : Int) : Option Nat :=
  if k.natAbs ≤ d then f.reached[((d - k) / 2).toNat]? else none

/-- The front of round `d`, if `follow x y` diagonal steps can be made from lines `x` and `y`. -/
def advance (previous : Front) (d : Nat) (follow : Nat → Nat → Nat) : Front :=
  let entered := Array.ofFn fun i : Fin (d + 1) => entry previous d i
  ⟨entered, entered.mapIdx fun i x => x + follow x (across d i x)⟩

/-- The first diagonal of round `d` on which the front meets the `opposite` one of round `e`. -/
def meeting? (f : Front) (d : Nat) (opposite : Front) (e : Nat) (s : Stretch) : Option Nat :=
  (List.range (d + 1)).find? fun i =>
    match opposite.reach? e (s.farDiagonal - diagonal d i) with
    | some far => s.old.size ≤ f.reached.getD i 0 + far
    | none => false

end Front

/-- Diagonal steps towards the far corner. -/
def followDown (old new : Array String) (s : Stretch) (x y : Nat) : Nat :=
  if x < s.old.size && y < s.new.size then
    commonBelow old new (s.old.start + x) (s.new.start + y) (min (s.old.size - x) (s.new.size - y))
  else 0

/-- Diagonal steps from the far corner back. -/
def followUp (old new : Array String) (s : Stretch) (x y : Nat) : Nat :=
  if x < s.old.size && y < s.new.size then
    commonAbove old new (s.old.stop - x) (s.new.stop - y) (min (s.old.size - x) (s.new.size - y))
  else 0

/-- Where two stretches are split, counted from their beginnings: on the first diagonal on which the fronts
meet, within the given number of rounds. -/
def middle? (old new : Array String) (s : Stretch) (forward backward : Front) (d : Nat) :
    Nat → Option (Nat × Nat)
  | 0 => none
  | rounds + 1 =>
    -- the fronts meet in the forward half of a round or in its backward half, never in both
    let isOdd := s.farDiagonal % 2 != 0
    let forward := forward.advance d (followDown old new s)
    let met := if isOdd && d != 0 then forward.meeting? d backward (d - 1) s else none
    match met with
    | some i =>
      let x := forward.entered.getD i 0
      some (x, Front.across d i x)
    | none =>
      let backward := backward.advance d (followUp old new s)
      -- fronts of the same round only meet on diagonals of the same parity
      let met := if isOdd then none else backward.meeting? d forward d s
      match met with
      | some i =>
        let x := backward.reached.getD i 0
        some (s.old.size - x, s.new.size - Front.across d i x)
      | none => middle? old new s forward backward (d + 1) rounds

/-- The segments that kept lines at either end of a stretch and the segments between them make up. -/
def framed (i j above : Nat) (segments : List Segment) (k l below : Nat) : List Segment :=
  (if above = 0 then [] else [.kept i j above]) ++ segments ++
    if below = 0 then [] else [.kept k l below]

def shortestScript (old new : Array String) (s : Stretch) : List Segment :=
  let above := commonBelow old new s.old.start s.new.start (min s.old.size s.new.size)
  -- what is common at the beginning is not counted again at the end
  let below := commonAbove old new s.old.stop s.new.stop
    (min (s.old.size - above) (s.new.size - above))
  let i := s.old.start + above
  let j := s.new.start + above
  let n := s.old.size - above - below
  let m := s.new.size - above - below
  let between : List Segment :=
    if n = 0 && m = 0 then []
    else if m = 0 then [.removed i n j]
    else if n = 0 then [.added i j m]
    else
      match middle? old new ⟨⟨i, n⟩, ⟨j, m⟩⟩ .start .start 0 ((n + m + 1) / 2 + 1) with
      | some (x, y) =>
        -- a split that leaves one half empty would get nowhere
        if _h : x ≤ n ∧ y ≤ m ∧ 0 < x + y ∧ x + y < n + m then
          shortestScript old new ⟨⟨i, x⟩, ⟨j, y⟩⟩ ++
            shortestScript old new ⟨⟨i + x, n - x⟩, ⟨j + y, m - y⟩⟩
        else [.removed i n j, .added i j m]
      | none => [.removed i n j, .added i j m]
  framed s.old.start s.new.start above between (i + n) (j + m) below
  termination_by s.old.size + s.new.size
  decreasing_by all_goals omega

end FieldInjection
