/-!
# Reading TOML strings

Each reader is given what follows the opening marks of a form and returns the string with what follows the
closing marks. Between quotes, a backslash begins an escape; between apostrophes everything stands for
itself. A form between three marks may hold line breaks, the first of which does not count if it comes first,
and up to two marks before the closing ones.
-/

namespace FieldInjection.Toml

/-- A control character that no string may hold as it is. -/
def isForbidden (c : Char) : Bool := (c.toNat < 32 && c != '\t') || c.toNat = 127

def hexValue? (c : Char) : Option Nat :=
  if '0' ≤ c && c ≤ '9' then some (c.toNat - 48)
  else if 'a' ≤ c && c ≤ 'f' then some (c.toNat - 87)
  else if 'A' ≤ c && c ≤ 'F' then some (c.toNat - 55)
  else none

def readHex (value : Nat) : Nat → List Char → Option (Nat × List Char)
  | 0, cs => some (value, cs)
  | _ + 1, [] => none
  | n + 1, c :: cs =>
    match hexValue? c with
    | some digit => readHex (value * 16 + digit) n cs
    | none => none

/-- The character of a code point, unless it is a surrogate or out of range. -/
def charOf? (n : Nat) : Option Char := if h : n.isValidChar then some (Char.ofNatAux n h) else none

/-- Reads the rest of an escape whose letter is given. -/
def readEscape (letter : Char) (cs : List Char) : Option (Char × List Char) :=
  match letter with
  | 'b' => some ('\x08', cs)
  | 't' => some ('\t', cs)
  | 'n' => some ('\n', cs)
  | 'f' => some ('\x0c', cs)
  | 'r' => some ('\r', cs)
  | '"' => some ('"', cs)
  | '\\' => some ('\\', cs)
  | 'u' => do
    let (n, rest) ← readHex 0 4 cs
    let c ← charOf? n
    return (c, rest)
  | 'U' => do
    let (n, rest) ← readHex 0 8 cs
    let c ← charOf? n
    return (c, rest)
  | _ => none

/-- A string with one more character in front. -/
def prepend (c : Char) (x : Option (List Char × List Char)) : Option (List Char × List Char) :=
  x.map fun r => (c :: r.1, r.2)

/-- Reads a string between quotes, in at most as many steps as given. -/
def readBasic : Nat → List Char → Option (List Char × List Char)
  | 0, _ => none
  | _, [] => none
  | _ + 1, '"' :: cs => some ([], cs)
  | steps + 1, '\\' :: letter :: cs =>
    match readEscape letter cs with
    | some (c, rest) => prepend c (readBasic steps rest)
    | none => none
  | steps + 1, c :: cs => if isForbidden c || c = '\\' then none else prepend c (readBasic steps cs)

def readLiteral : List Char → Option (List Char × List Char)
  | [] => none
  | '\'' :: cs => some ([], cs)
  | c :: cs => if isForbidden c then none else prepend c (readLiteral cs)

/-- Without a line break at the beginning. -/
def skipBreak : List Char → List Char
  | '\n' :: cs => cs
  | '\r' :: '\n' :: cs => cs
  | cs => cs

/-- Without the blanks and line breaks at the beginning. -/
def skipSpace : List Char → List Char
  | '\r' :: '\n' :: cs => skipSpace cs
  | c :: cs => if c = ' ' || c = '\t' || c = '\n' then skipSpace cs else c :: cs
  | [] => []

/-- What follows a backslash at the end of a line: the next lines from their first visible character on. -/
def continuation? (cs : List Char) : Option (List Char) :=
  match cs.dropWhile fun c => c = ' ' || c = '\t' with
  | '\n' :: rest => some (skipSpace rest)
  | '\r' :: '\n' :: rest => some (skipSpace rest)
  | _ => none

/-- Reads a string between three quotes, in at most as many steps as given. -/
def readLongBasic : Nat → List Char → Option (List Char × List Char)
  | 0, _ => none
  | _, [] => none
  | _ + 1, '"' :: '"' :: '"' :: '"' :: '"' :: cs => some (['"', '"'], cs)
  | _ + 1, '"' :: '"' :: '"' :: '"' :: cs => some (['"'], cs)
  | _ + 1, '"' :: '"' :: '"' :: cs => some ([], cs)
  | steps + 1, '\\' :: cs =>
    match continuation? cs with
    | some rest => readLongBasic steps rest
    | none =>
      match cs with
      | [] => none
      | letter :: cs =>
        match readEscape letter cs with
        | some (c, rest) => prepend c (readLongBasic steps rest)
        | none => none
  | steps + 1, '\r' :: '\n' :: cs => prepend '\n' (readLongBasic steps cs)
  | steps + 1, c :: cs =>
    if isForbidden c && c != '\n' then none else prepend c (readLongBasic steps cs)

def readLongLiteral : List Char → Option (List Char × List Char)
  | [] => none
  | '\'' :: '\'' :: '\'' :: '\'' :: '\'' :: cs => some (['\'', '\''], cs)
  | '\'' :: '\'' :: '\'' :: '\'' :: cs => some (['\''], cs)
  | '\'' :: '\'' :: '\'' :: cs => some ([], cs)
  | '\r' :: '\n' :: cs => prepend '\n' (readLongLiteral cs)
  | c :: cs => if isForbidden c && c != '\n' then none else prepend c (readLongLiteral cs)

/-- Reads a string in any form, if there is one; `none` inside if it is faulty. -/
def readText? (cs : List Char) : Option (Option (String × List Char)) :=
  let asText (r : List Char × List Char) : String × List Char := (String.ofList r.1, r.2)
  match cs with
  | '"' :: '"' :: '"' :: rest => some ((readLongBasic (rest.length + 1) (skipBreak rest)).map asText)
  | '\'' :: '\'' :: '\'' :: rest => some ((readLongLiteral (skipBreak rest)).map asText)
  | '"' :: rest => some ((readBasic (rest.length + 1) rest).map asText)
  | '\'' :: rest => some ((readLiteral rest).map asText)
  | _ => none

end FieldInjection.Toml
