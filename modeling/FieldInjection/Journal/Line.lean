import FieldInjection.Journal.Event
import FieldInjection.Report.Json

/-!
# Log lines

An event is written as a line of text, with its level in front and its fields behind its message, or as a JSON
document on one line.
-/

namespace FieldInjection

/-- A character of a message. The control characters that steer a terminal are spelled out. -/
def messageChar (c : Char) : List Char :=
  let n := c.toNat
  if n = 0x1b || n = 0x07 || n = 0x08 || n = 0x0c || n = 0x7f then
    ['\\', 'x', JsonDoc.hexDigit (n / 16), JsonDoc.hexDigit (n % 16)]
  else if 0x80 ≤ n && n ≤ 0x9f then
    ['\\', 'u', '\x7b', JsonDoc.hexDigit (n / 16), JsonDoc.hexDigit (n % 16), '\x7d']
  else [c]

namespace Event

def textLine (e : Event) : String :=
  let message := e.message?.map fun text => String.ofList (text.toList.flatMap messageChar)
  let fields := e.fields.map fun f => f.1 ++ "=" ++ f.2.render
  String.intercalate " " (e.level.name :: (message.toList ++ fields))

/-- The value of a field in a document. -/
def fieldDoc : FieldValue → JsonDoc
  | .text value => .text value
  | .number value => .number value

def document (e : Event) : JsonDoc :=
  let message := e.message?.map fun text => ("message", JsonDoc.text text)
  .object [("level", .text e.level.name),
    ("fields", .object (message.toList ++ e.fields.map fun f => (f.1, fieldDoc f.2))),
    ("target", .text e.target)]

/-- The line of an event in the log. -/
def line (asJson : Bool) (e : Event) : String :=
  if asJson then (document e).renderLine else e.textLine

end Event

end FieldInjection
