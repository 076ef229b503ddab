import FieldInjection.Toml.Scalar
import FieldInjection.Toml.Table
import FieldInjection.Toml.Text

/-!
# Reading TOML documents

A document is read line by line: a header opens a table, and a key gives a value in the table opened last.
A document with any fault has no value.

The readers take the text that is left and return the text that is left behind what they read. Where they
call themselves, the first argument bounds the number of steps; the length of the text is enough.
-/

namespace FieldInjection.Toml

def isGap (c : Char) : Bool := c = ' ' || c = '\t'

/-- Without the spaces and tabs at the beginning. -/
def skipGap (cs : List Char) : List Char := cs.dropWhile isGap

/-- A character that may stand in a comment. -/
def isCommentChar (c : Char) : Bool := (32 ≤ c.toNat && c ≠ '\x7f') || c = '\t'

/-- Without a comment at the beginning. -/
def skipComment : List Char → List Char
  | '#' :: cs => cs.dropWhile isCommentChar
  | cs => cs

/-- The next lines behind a line that is over: nothing but blanks and a comment may be left of it. -/
def nextLines? (cs : List Char) : Option (List Char) :=
  match skipComment (skipGap cs) with
  | [] => some []
  | '\n' :: rest => some rest
  | '\r' :: '\n' :: rest => some rest
  | _ => none

/-- Without the blanks, line breaks and comments at the beginning. -/
def skipLines : Nat → List Char → List Char
  | 0, cs => cs
  | steps + 1, cs =>
    match skipComment (skipGap cs) with
    | '\n' :: rest => skipLines steps rest
    | '\r' :: '\n' :: rest => skipLines steps rest
    | rest => rest

/-- A character that a key without marks may be written with. -/
def isKeyChar (c : Char) : Bool := c.isAlphanum || c = '_' || c = '-'

def readSimpleKey (cs : List Char) : Option (String × List Char) :=
  match cs with
  | '"' :: rest => (readBasic (rest.length + 1) rest).map fun r => (String.ofList r.1, r.2)
  | '\'' :: rest => (readLiteral rest).map fun r => (String.ofList r.1, r.2)
  | _ =>
    let word := cs.takeWhile isKeyChar
    if word = [] then none else some (String.ofList word, cs.drop word.length)

def readKeys : Nat → List Char → Option (List String × List Char)
  | 0, _ => none
  | steps + 1, cs =>
    match readSimpleKey cs with
    | none => none
    | some (key, rest) =>
      match skipGap rest with
      | '.' :: more => (readKeys steps (skipGap more)).map fun r => (key :: r.1, r.2)
      | rest => some ([key], rest)

/-- Reads keys and the sign behind them. -/
def readAssignment (cs : List Char) : Option (List String × List Char) :=
  match readKeys (cs.length + 1) cs with
  | some (keys, '=' :: rest) => some (keys, skipGap rest)
  | _ => none

mutual

def readValue : Nat → List Char → Option (Setting × List Char)
  | 0, _ => none
  | steps + 1, cs =>
    match readText? cs with
    | some text => text.map fun r => (.text r.1, r.2)
    | none =>
      match cs with
      | '[' :: rest => (readItems steps rest).map fun r => (.list r.1, r.2)
      | '\x7b' :: rest =>
        match skipGap rest with
        | '\x7d' :: rest => some (.empty, rest)
        | rest => (readMembers steps [] rest).map fun r => (.table (settingsOf r.1), r.2)
      | _ =>
        let spelling := scalarSpelling cs
        let rest := cs.drop spelling.length
        match scalarOf? spelling with
        | some (.boolean value) => some (.boolean value, rest)
        | some .number => some (.number, rest)
        -- a date counts as a table without members
        | some .moment => some (.empty, rest)
        | none => none

/-- Reads the items of an array and its end. -/
def readItems : Nat → List Char → Option (List Setting × List Char)
  | 0, _ => none
  | steps + 1, cs =>
    -- a comma may stand behind the last item
    match skipLines (cs.length + 1) cs with
    | ']' :: rest => some ([], rest)
    | cs =>
      match readValue steps cs with
      | none => none
      | some (item, rest) =>
        match skipLines (rest.length + 1) rest with
        | ',' :: rest => (readItems steps rest).map fun r => (item :: r.1, r.2)
        | ']' :: rest => some ([item], rest)
        | _ => none

/-- Reads the members of a table in braces, behind those that are done, and its end. -/
def readMembers : Nat → Members → List Char → Option (Members × List Char)
  | 0, _, _ => none
  | steps + 1, done, cs =>
    match readAssignment cs with
    | none => none
    | some (keys, rest) =>
      match readValue steps rest with
      | none => none
      | some (value, rest) =>
        match assign value keys done with
        | none => none
        | some done =>
          match skipGap rest with
          -- here another member must follow a comma, and on the same line
          | ',' :: rest => readMembers steps done (skipGap rest)
          | '\x7d' :: rest => some (done, rest)
          | _ => none

end

/-- A document in the making: its tables, and the keys of the one opened last. -/
structure Draft where
  members : Members
  header : List String

def readHeaderKeys (cs : List Char) : Option (List String × List Char) :=
  let cs := skipGap cs
  readKeys (cs.length + 1) cs

def Draft.openHeader (d : Draft) (change : String → Members → Option Members) (keys : List String) :
    Option Draft :=
  match keys.getLast? with
  | none => none
  | some key => (within (change key) keys.dropLast d.members).map fun members => ⟨members, keys⟩

/-- Reads what stands on a line, with its end still to come. -/
def readLine (d : Draft) (cs : List Char) : Option (Draft × List Char) :=
  match cs with
  | '[' :: '[' :: rest =>
    match readHeaderKeys rest with
    | some (keys, ']' :: ']' :: rest) => (d.openHeader openNext keys).map fun d => (d, rest)
    | _ => none
  | '[' :: rest =>
    match readHeaderKeys rest with
    | some (keys, ']' :: rest) => (d.openHeader openLast keys).map fun d => (d, rest)
    | _ => none
  | [] | '#' :: _ | '\n' :: _ | '\r' :: _ => some (d, cs)
  | _ =>
    match readAssignment cs with
    | none => none
    | some (keys, rest) =>
      match readValue (rest.length + 1) rest with
      | none => none
      | some (value, rest) =>
        -- the keys of a line count from the table opened last
        (within (assign value keys) d.header d.members).map fun members => ({ d with members }, rest)

/-- Reads the lines of a document into a draft. -/
def readLines : Nat → Draft → List Char → Option Draft
  | 0, _, _ => none
  | _, d, [] => some d
  | steps + 1, d, cs =>
    match readLine d (skipGap cs) with
    | none => none
    | some (d, rest) =>
      match nextLines? rest with
      | none => none
      | some rest => readLines steps d rest

/-- Reads a document; a byte order mark in front does not count. -/
def read? (text : String) : Option Setting :=
  let cs :=
    match text.toList with
    | '\ufeff' :: rest => rest
    | cs => cs
  (readLines (cs.length + 1) ⟨[], []⟩ cs).map fun d => .table (settingsOf d.members)

end FieldInjection.Toml
