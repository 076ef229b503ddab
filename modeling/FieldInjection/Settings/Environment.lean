import FieldInjection.Settings.Setting
import FieldInjection.Text.Blank
import FieldInjection.Toml.Text

/-!
# Settings in the environment

A variable whose name begins with the prefix gives a setting: the rest of the name, in small letters, is its
path of keys with two underscores between them. Its value may be a boolean, a number, a string between
quotes, a character between apostrophes, a list in square brackets or a table in braces; anything else
stands for itself as a text.
-/

namespace FieldInjection.Environment

def variablePrefix : String := "INJECT_IT_"

/-! ## Values -/

/-- Blank characters around values. -/
def isSpace (c : Char) : Bool := c = ' ' || c = '\t' || c = '\n' || c = '\x0c' || c = '\r'

/-- Without the blanks at the beginning. -/
def skipSpace (cs : List Char) : List Char := cs.dropWhile isSpace

/-- What ends a text without marks. -/
def isSeparator (c : Char) : Bool :=
  c = ',' || c = '\x7b' || c = '\x7d' || c = '[' || c = ']'

/-- A digit string that is not empty. -/
def areDigits (cs : List Char) : Bool := cs != [] && cs.all Char.isDigit

def digitsValue (cs : List Char) : Nat := cs.foldl (fun n c => n * 10 + (c.toNat - 48)) 0

/-- An integer that fits into 64 bits, with or without a sign. -/
def isInteger (cs : List Char) : Bool :=
  match cs with
  | '-' :: ds => areDigits ds && digitsValue ds ≤ Nat.pow 2 63
  | '+' :: ds => areDigits ds && digitsValue ds < UInt64.size
  | ds => areDigits ds && digitsValue ds < UInt64.size

/-- A decimal fraction, with or without a sign and an exponent. -/
def isFraction (cs : List Char) : Bool :=
  let cs := match cs with
    | '+' :: ds | '-' :: ds => ds
    | ds => ds
  let whole := cs.takeWhile Char.isDigit
  match cs.drop whole.length with
  | '.' :: rest =>
    let decimals := rest.takeWhile Char.isDigit
    (whole != [] || decimals != []) &&
      match rest.drop decimals.length with
      | [] => true
      | mark :: exponent =>
        (mark = 'e' || mark = 'E') &&
          match exponent with
          | '+' :: ds | '-' :: ds => areDigits ds
          | ds => areDigits ds
  | _ => false

/-- A text without marks. -/
def plainValue (s : String) : Setting :=
  if isFraction s.toList || isInteger s.toList then .number else .text s

/-- Without a word at the beginning, if it begins with that. -/
def afterWord? (word : String) (cs : List Char) : Option (List Char) :=
  if word.toList.isPrefixOf cs then some (cs.drop word.length) else none

/-- Reads a string behind its opening quote. -/
def readQuoted (cs : List Char) : Option (String × List Char) :=
  (Toml.readBasic (cs.length + 1) cs).map fun r => (String.ofList r.1, r.2)

/-- A character that a key without quotes may be written with. -/
def isKeyChar (c : Char) : Bool := c.isAlphanum || c = '_' || c = '-'

/-- Reads the key of a table in braces. -/
def readKey (cs : List Char) : Option (String × List Char) :=
  match cs with
  | '"' :: rest => readQuoted rest
  | _ =>
    let word := cs.takeWhile isKeyChar
    if word = [] then none else some (String.ofList word, cs.drop word.length)

mutual

/-- Reads a value with the blanks around it, in at most as many steps as given. -/
def readValue : Nat → List Char → Option (Setting × List Char)
  | 0, _ => none
  | steps + 1, cs =>
    let cs := skipSpace cs
    let read : Option (Setting × List Char) :=
      match afterWord? "true" cs, afterWord? "false" cs with
      | some rest, _ => some (.boolean true, rest)
      | none, some rest => some (.boolean false, rest)
      | none, none =>
        match cs with
        | '\x7b' :: rest => (readMembers steps rest).map fun r => (.table r.1, r.2)
        | '[' :: rest => (readItems steps rest).map fun r => (.list r.1, r.2)
        | '"' :: rest => (readQuoted rest).map fun r => (.text r.1, r.2)
        | '\'' :: c :: '\'' :: rest => some (.text (String.singleton c), rest)
        -- an apostrophe that encloses no single character
        | '\'' :: _ => none
        | _ =>
          let word := cs.takeWhile fun c => !isSeparator c
          some (plainValue (trimBlanks (String.ofList word)), cs.drop word.length)
    read.map fun r => (r.1, skipSpace r.2)

/-- Reads the items of a list and its end. -/
def readItems : Nat → List Char → Option (List Setting × List Char)
  | 0, _ => none
  | _, ']' :: rest => some ([], rest)
  | steps + 1, cs =>
    match readValue steps cs with
    | some (item, ',' :: rest) => (readItems steps rest).map fun r => (item :: r.1, r.2)
    | some (item, ']' :: rest) => some ([item], rest)
    | _ => none

/-- Reads the members of a table and its end. -/
def readMembers : Nat → List Char → Option (List (String × Setting) × List Char)
  | 0, _ => none
  | _, '\x7d' :: rest => some ([], rest)
  | steps + 1, cs =>
    match readKey (skipSpace cs) with
    | none => none
    | some (key, rest) =>
      match skipSpace rest with
      | '=' :: rest =>
        match readValue steps rest with
        | some (value, ',' :: rest) =>
          (readMembers steps rest).map fun r => (Setting.putMember key value r.1, r.2)
        | some (value, '\x7d' :: rest) => some ([(key, value)], rest)
        | _ => none
      | _ => none

end

def valueOf (s : String) : Setting :=
  -- what cannot be read to its end is a text
  match readValue (s.length + 1) s.toList with
  | some (value, []) => value
  | _ => .text s

/-! ## Names -/

/-- The keys between dots and pairs of underscores. -/
def keysOf : List Char → List (List Char)
  | [] => [[]]
  | '_' :: '_' :: cs => [] :: keysOf cs
  | c :: cs =>
    if c = '.' then [] :: keysOf cs
    else
      match keysOf cs with
      | [] => [[c]]
      | k :: ks => (c :: k) :: ks

/-- What follows the prefix in a variable's name, in capital or small letters. -/
def afterPrefix? (name : String) : Option (List Char) :=
  let cs := (trimBlanks name).toList
  let first := cs.take variablePrefix.length
  if first.map Char.toUpper = variablePrefix.toList then some (cs.drop variablePrefix.length) else none

/-- The setting of a variable, unless its name gives none. -/
def settingOf? (entry : String × String) : Option Setting := do
  let name ← afterPrefix? entry.1
  let keys := keysOf name
  if keys.any (· = []) then none
  else
    some (Setting.nested (valueOf (trimBlanks entry.2))
      (keys.map fun k => String.ofList (k.map Char.toLower)))

/-- The layer of settings in the environment; later variables are merged over earlier ones. -/
def layer (assignments : List (String × String)) : Setting :=
  (assignments.filterMap settingOf?).foldl Setting.merge .empty

end FieldInjection.Environment
