/-!
# Writing TOML strings

A string can be written in four forms, and the plainest that carries it is taken: between quotes, between
apostrophes, or between three of either. Where none of them carries it as it is, it is escaped. In every
form between quotes a tab is escaped. A form between three quotes or apostrophes begins with a line break,
which does not count, if the string has one.
-/

namespace FieldInjection.Toml

/-- A control character that has to be escaped: not a tab or a line feed, which have forms of their own. -/
def needsEscape (c : Char) : Bool := (c.toNat < 32 && c != '\t' && c != '\n') || c.toNat = 127

/-- The length of the longest run of a character, after `run` of them. -/
def longestRunFrom (mark : Char) (run : Nat) : List Char → Nat
  | [] => run
  | c :: cs =>
    if c = mark then longestRunFrom mark (run + 1) cs else max run (longestRunFrom mark 0 cs)

/-- The length of the longest run of a character. -/
def longestRun (mark : Char) (cs : List Char) : Nat := longestRunFrom mark 0 cs

def hexDigit (n : Nat) : Char := if n < 10 then Char.ofNat (48 + n) else Char.ofNat (55 + n)

/-- A character as it is written between quotes. -/
def escape (c : Char) : List Char :=
  match c with
  | '\x08' => ['\\', 'b']
  | '\t' => ['\\', 't']
  | '\x0c' => ['\\', 'f']
  | '\r' => ['\\', 'r']
  | '"' => ['\\', '"']
  | '\\' => ['\\', '\\']
  | c =>
    if needsEscape c then
      ['\\', 'u', '0', '0', hexDigit (c.toNat / 16), hexDigit (c.toNat % 16)]
    else [c]

/-- The inside of a form with three quotes, behind `run` quotes: only every third quote of a run is
escaped. -/
def escapeLong (run : Nat) : List Char → List Char
  | [] => []
  | c :: cs =>
    if c = '"' then
      if run = 2 then '\\' :: '"' :: escapeLong 0 cs else '"' :: escapeLong (run + 1) cs
    else escape c ++ escapeLong 0 cs

/-- Three times a mark. -/
def triple (mark : Char) : List Char := [mark, mark, mark]

/-- What follows the opening marks of a long form: a line break if there is one inside. -/
def opening (cs : List Char) : List Char := if cs.contains '\n' then ['\n'] else []

/-- The forms of a string. -/
inductive Form where
  | basic
  | literal
  | longBasic
  | longLiteral
  deriving DecidableEq, Repr

/-- The form in which a string is written. -/
def formOf (cs : List Char) : Form :=
  let hasControl := cs.any needsEscape
  let hasBackslash := cs.contains '\\'
  let hasBreak := cs.contains '\n'
  let quotes := longestRun '"' cs
  let apostrophes := longestRun '\'' cs
  if !hasControl && !hasBackslash && !hasBreak && quotes = 0 then .basic
  else if !hasControl && !hasBreak && apostrophes = 0 then .literal
  else if !hasControl && !hasBackslash && quotes ≤ 2 then .longBasic
  else if !hasControl && apostrophes ≤ 2 then .longLiteral
  else if hasBreak then .longBasic
  else .basic

def writeAs (cs : List Char) : Form → List Char
  | .basic => '"' :: cs.flatMap escape ++ ['"']
  | .literal => '\'' :: cs ++ ['\'']
  | .longBasic => triple '"' ++ opening cs ++ escapeLong 0 cs ++ triple '"'
  | .longLiteral => triple '\'' ++ opening cs ++ cs ++ triple '\''

def writeText (s : String) : List Char := writeAs s.toList (formOf s.toList)

end FieldInjection.Toml
