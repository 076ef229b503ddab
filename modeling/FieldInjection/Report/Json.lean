/-!
# JSON documents

The JSON documents that are written, in two layouts: on one line, and on many lines with two spaces of
indentation. In a string only the quote, the backslash and the control characters are escaped.
-/

namespace FieldInjection

/-- A JSON document without fractions. -/
inductive JsonDoc where
  | text (value : String)
  | number (value : Nat)
  | boolean (value : Bool)
  | array (items : List JsonDoc)
  | object (members : List (String × JsonDoc))

namespace JsonDoc

def hexDigit (n : Nat) : Char := if n < 10 then Char.ofNat (48 + n) else Char.ofNat (87 + n)

/-- A character as it is written in a string. -/
def escape (c : Char) : List Char :=
  match c with
  | '"' => ['\\', '"']
  | '\\' => ['\\', '\\']
  | '\x08' => ['\\', 'b']
  | '\t' => ['\\', 't']
  | '\n' => ['\\', 'n']
  | '\x0c' => ['\\', 'f']
  | '\r' => ['\\', 'r']
  | c =>
    if c.toNat < 32 then ['\\', 'u', '0', '0', hexDigit (c.toNat / 16), hexDigit (c.toNat % 16)]
    else [c]

def quote (s : String) : String := String.ofList ('"' :: s.toList.flatMap escape ++ ['"'])

/-- A line break with the indentation of a depth. -/
def lineBreak (depth : Nat) : String := "\n" ++ String.ofList (List.replicate (2 * depth) ' ')

mutual

/-- A document on many lines, beginning at a depth. -/
def renderAt (depth : Nat) : JsonDoc → String
  | text value => quote value
  | number value => toString value
  | boolean value => if value then "true" else "false"
  | array [] => "[]"
  | array (item :: items) =>
    "[" ++ lineBreak (depth + 1) ++ renderAt (depth + 1) item ++ renderItems (depth + 1) items ++
      lineBreak depth ++ "]"
  | object [] => "\x7b\x7d"
  | object (member :: members) =>
    "\x7b" ++ lineBreak (depth + 1) ++ quote member.1 ++ ": " ++ renderAt (depth + 1) member.2 ++
      renderMembers (depth + 1) members ++ lineBreak depth ++ "\x7d"

/-- The items behind the first one. -/
def renderItems (depth : Nat) : List JsonDoc → String
  | [] => ""
  | item :: items => "," ++ lineBreak depth ++ renderAt depth item ++ renderItems depth items

/-- The members behind the first one. -/
def renderMembers (depth : Nat) : List (String × JsonDoc) → String
  | [] => ""
  | member :: members =>
    "," ++ lineBreak depth ++ quote member.1 ++ ": " ++ renderAt depth member.2 ++
      renderMembers depth members

end

def render (d : JsonDoc) : String := renderAt 0 d

mutual

def renderLine : JsonDoc → String
  | text value => quote value
  | number value => toString value
  | boolean value => if value then "true" else "false"
  | array items => "[" ++ String.intercalate "," (itemLines items) ++ "]"
  | object members => "\x7b" ++ String.intercalate "," (memberLines members) ++ "\x7d"

/-- Each of some items on one line. -/
def itemLines : List JsonDoc → List String
  | [] => []
  | item :: items => renderLine item :: itemLines items

/-- Each of some members on one line. -/
def memberLines : List (String × JsonDoc) → List String
  | [] => []
  | member :: members => (quote member.1 ++ ":" ++ renderLine member.2) :: memberLines members

end

end JsonDoc

end FieldInjection
