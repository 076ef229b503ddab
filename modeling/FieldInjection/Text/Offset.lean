/-!
# Byte offsets into a text

A text is a list of characters, and every position in it is counted in UTF-8 bytes. A byte offset is a
*boundary* when it falls between two characters (or at an end); only then can a text be cut there.

`takeBytes` and `dropBytes` cut at a boundary, `isBoundary` tells which offsets are boundaries, and
`take_append_drop` says that the two parts of a cut are the whole text.
-/

namespace FieldInjection

/-- The number of bytes a text takes in UTF-8. -/
def byteLength : List Char → Nat
  | [] => 0
  | c :: cs => c.utf8Size + byteLength cs

/-- An offset that falls between two characters of the text, or at one of its ends. -/
def isBoundary : List Char → Nat → Bool
  | _, 0 => true
  | [], _ + 1 => false
  | c :: cs, n + 1 => c.utf8Size ≤ n + 1 && isBoundary cs (n + 1 - c.utf8Size)

/-- The characters that start before byte offset `n`. -/
def takeBytes : List Char → Nat → List Char
  | _, 0 => []
  | [], _ + 1 => []
  | c :: cs, n + 1 => c :: takeBytes cs (n + 1 - c.utf8Size)

/-- The characters that start at byte offset `n` or later. -/
def dropBytes : List Char → Nat → List Char
  | cs, 0 => cs
  | [], _ + 1 => []
  | c :: cs, n + 1 => dropBytes cs (n + 1 - c.utf8Size)

def sliceBytes (cs : List Char) (start stop : Nat) : List Char :=
  takeBytes (dropBytes cs start) (stop - start)

@[simp] theorem byteLength_nil : byteLength [] = 0 := rfl

@[simp] theorem byteLength_cons (c : Char) (cs : List Char) :
    byteLength (c :: cs) = c.utf8Size + byteLength cs := rfl

@[simp] theorem byteLength_append (xs ys : List Char) :
    byteLength (xs ++ ys) = byteLength xs + byteLength ys := by
  induction xs with
  | nil => simp
  | cons c cs ih => simp [ih]; omega

/-- The two parts of a cut are the whole text. -/
theorem take_append_drop (cs : List Char) (n : Nat) :
    takeBytes cs n ++ dropBytes cs n = cs := by
  induction cs generalizing n with
  | nil => cases n <;> simp [takeBytes, dropBytes]
  | cons c cs ih => cases n <;> simp [takeBytes, dropBytes, ih]

theorem le_of_isBoundary {cs : List Char} {n : Nat} (h : isBoundary cs n = true) :
    n ≤ byteLength cs := by
  induction cs generalizing n with
  | nil => cases n <;> simp_all [isBoundary]
  | cons c cs ih =>
    cases n with
    | zero => simp
    | succ n =>
      simp only [isBoundary, Bool.and_eq_true, decide_eq_true_eq] at h
      have := ih h.2
      simp only [byteLength_cons]
      omega

/-- Cutting at a boundary `n` leaves exactly `n` bytes before the cut. -/
theorem byteLength_takeBytes {cs : List Char} {n : Nat} (h : isBoundary cs n = true) :
    byteLength (takeBytes cs n) = n := by
  induction cs generalizing n with
  | nil => cases n <;> simp_all [isBoundary, takeBytes]
  | cons c cs ih =>
    cases n with
    | zero => simp [takeBytes]
    | succ n =>
      simp only [isBoundary, Bool.and_eq_true, decide_eq_true_eq] at h
      simp only [takeBytes, byteLength_cons, ih h.2]
      omega

end FieldInjection
