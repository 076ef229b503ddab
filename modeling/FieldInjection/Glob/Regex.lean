/-!
# Regular languages over bytes

The small fragment of regular expressions that globs need, matched one byte at a time: `residuals r b` are
the expressions of which one has to match the rest once `b` has been read. Matching keeps a list of such
expressions without repetitions, so it takes time linear in the text.
-/

namespace FieldInjection.Glob

/-- Ranges of bytes, or everything outside them. -/
structure ByteSet where
  negated : Bool
  ranges : List (UInt8 × UInt8)
  deriving DecidableEq, Repr

/-- Whether a byte belongs to the set. -/
def ByteSet.contains (s : ByteSet) (b : UInt8) : Bool :=
  s.negated != s.ranges.any fun r => r.1 ≤ b && b ≤ r.2

def ByteSet.one (b : UInt8) : ByteSet := ⟨false, [(b, b)]⟩

def ByteSet.all : ByteSet := ⟨true, []⟩

/-- Regular expressions over bytes. -/
inductive Regex where
  | empty
  | byte (set : ByteSet)
  | seq (first second : Regex)
  | alt (left right : Regex)
  | star (inner : Regex)
  deriving DecidableEq, Repr

namespace Regex

/-- Whether the empty text matches. -/
def nullable : Regex → Bool
  | empty => true
  | byte _ => false
  | seq r s => r.nullable && s.nullable
  | alt r s => r.nullable || s.nullable
  | star _ => true

/-- What may follow a byte. -/
def residuals : Regex → UInt8 → List Regex
  | empty, _ => []
  | byte set, b => if set.contains b then [empty] else []
  | seq r s, b =>
    (r.residuals b).map (seq · s) ++ if r.nullable then s.residuals b else []
  | alt r s, b => r.residuals b ++ s.residuals b
  | star r, b => (r.residuals b).map (seq · (star r))

/-- Whether one of the expressions matches the whole text. -/
def anyMatches : List Regex → List UInt8 → Bool
  | rs, [] => rs.any nullable
  | rs, b :: bs => anyMatches (rs.flatMap fun r => r.residuals b).eraseDups bs

/-- Whether the expression matches the whole text. -/
def matches? (r : Regex) (text : List UInt8) : Bool := anyMatches [r] text

/-- A byte out of a set, any number of times. -/
def many (set : ByteSet) : Regex := star (byte set)

def concat (rs : List Regex) : Regex := rs.foldr seq empty

def optional (r : Regex) : Regex := alt empty r

/-- One of the expressions; `empty` for none. -/
def choice : List Regex → Regex
  | [] => empty
  | [r] => r
  | r :: rs => alt r (choice rs)

end Regex

end FieldInjection.Glob
