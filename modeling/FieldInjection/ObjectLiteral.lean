import FieldInjection.Decimal.Shortest

/-!
# Object literals

An object literal with unquoted keys, one entry per line:

    {
    optional: true,
    token: 'api'
    }

Strings stand in single quotes, with a backslash before every backslash and every single quote and no
other escape.
-/

namespace FieldInjection

/-- The value of an entry; a number is given by its binary64 bit pattern. -/
inductive LiteralValue where
  | boolean (value : Bool)
  | number (bits : UInt64)
  | text (value : String)
  deriving DecidableEq, Repr

/-- One `key: value` pair of an object literal. -/
structure LiteralEntry where
  key : String
  value : LiteralValue
  deriving DecidableEq, Repr

/-- The inside of a single-quoted string. -/
def escapeQuoted : List Char → List Char
  | [] => []
  | c :: cs =>
    if c = '\\' ∨ c = '\'' then '\\' :: c :: escapeQuoted cs else c :: escapeQuoted cs

def LiteralValue.render : LiteralValue → String
  | .boolean true => "true"
  | .boolean false => "false"
  | .number bits => Decimal.ofBits bits
  | .text value => "'" ++ String.ofList (escapeQuoted value.toList) ++ "'"

def LiteralEntry.render (e : LiteralEntry) : String := e.key ++ ": " ++ e.value.render

def renderObjectLiteral (entries : List LiteralEntry) : String :=
  "\x7b\n" ++ String.intercalate ",\n" (entries.map LiteralEntry.render) ++ "\n\x7d"

end FieldInjection
