import FieldInjection.Journal.Event
import FieldInjection.Text.Blank

/-!
# Log filters

A filter is a list of directives. A directive is meant for the events of all targets that begin as its own
one does, and lets those through that are important enough. Of the directives that are meant for an event
the most specific decides, that is the one with the longest target; an event for which none is meant is
not let through.

Written, directives stand between commas. One is a level, a target, or both with `=` between them. A word that
is no level is a target, all of whose events are let through.
-/

namespace FieldInjection

/-- What is let through: nothing, or what is at least as important as a level. -/
inductive Threshold where
  | nothing
  | atLeast (level : LogLevel)
  deriving DecidableEq, Repr

namespace Threshold

/-- Whether events of a level are let through. -/
def admits (t : Threshold) (level : LogLevel) : Bool :=
  match t with
  | nothing => false
  | atLeast least => least.rank ≤ level.rank

/-- The threshold of a number: from nothing at zero to everything at five. -/
def ofNumber? : Nat → Option Threshold
  | 0 => some nothing
  | 1 => some (atLeast .error)
  | 2 => some (atLeast .warn)
  | 3 => some (atLeast .info)
  | 4 => some (atLeast .debug)
  | 5 => some (atLeast .trace)
  | _ => none

def ofDigits? (cs : List Char) : Option Threshold :=
  let digits := if cs.head? = some '+' then cs.tail else cs
  if digits != [] && digits.all Char.isDigit then
    ofNumber? (digits.foldl (fun n c => 10 * n + (c.toNat - 48)) 0)
  else none

/-- The threshold of a word, in capital or small letters, or of a number. -/
def ofChars? (cs : List Char) : Option Threshold :=
  match String.ofList (cs.map Char.toLower) with
  | "off" => some nothing
  | "error" => some (atLeast .error)
  | "warn" => some (atLeast .warn)
  | "info" => some (atLeast .info)
  | "debug" => some (atLeast .debug)
  | "trace" => some (atLeast .trace)
  | _ => ofDigits? cs

end Threshold

/-- What one directive says. -/
structure Directive where
  /-- What the targets begin with for which the directive is meant. -/
  target : List Char := []
  /-- A field that the events must have. -/
  field? : Option (List Char) := none
  /-- Whether the directive is meant for events in a span, of which there are none. -/
  inSpan : Bool := false
  threshold : Threshold := .atLeast .trace
  deriving DecidableEq, Repr

/-- Whether an event has a field; its message is one. -/
def Event.hasField (e : Event) (name : List Char) : Bool :=
  e.fields.any (fun f => f.1.toList == name) || (name == "message".toList && e.message?.isSome)

namespace Directive

/-- Whether a directive is meant for an event. -/
def isFor (d : Directive) (e : Event) : Bool :=
  !d.inSpan && d.target.isPrefixOf e.target.toList && d.field?.all e.hasField

/-- How specific a directive is: the length of its target counts first, then whether it asks for a field. -/
def specificity (d : Directive) : Nat := 2 * d.target.length + if d.field?.isSome then 1 else 0

/-- What a directive may begin with. Outside ASCII everything counts as a letter. -/
def mayBegin (c : Char) : Bool :=
  c = '[' || c = '-' || c = ':' || c = '_' || c.isAlphanum || 128 ≤ c.toNat

/-- Reads what may stand at the end of a directive: `=` and a level, which may be left out. -/
def readThreshold (d : Directive) : List Char → Option Directive
  | [] => some d
  | ['='] => some d
  | '=' :: level => (Threshold.ofChars? level).map fun t => { d with threshold := t }
  | _ => none

/-- Reads what follows a square bracket: the name of a span, a field in braces, or both. A field with a value
is one of spans. -/
def readSpan (d : Directive) (cs : List Char) : Option Directive :=
  let name := cs.takeWhile fun c => c != ']' && c != '\x7b'
  match cs.drop name.length with
  | ']' :: rest => { d with inSpan := true }.readThreshold rest
  | '\x7b' :: rest =>
    let field := rest.takeWhile (· != '\x7d')
    match rest.drop field.length with
    | '\x7d' :: ']' :: rest =>
      if field = [] then none
      -- there are no spans, so a directive that asks for one is meant for nothing
      else { d with field? := some field, inSpan := name != [] || field.contains '=' }.readThreshold rest
    | _ => none
  | _ => none

/-- Reads a directive without blanks around it. -/
def ofChars? (cs : List Char) : Option Directive :=
  if !cs.head?.any mayBegin then none
  else
    let word := cs.takeWhile fun c => c != '=' && c != '['
    match cs.drop word.length with
    | [] =>
      -- a lone word is a level if it can be one
      match Threshold.ofChars? word with
      | some t => some { threshold := t }
      | none => some { target := word }
    | '[' :: rest => { target := word : Directive }.readSpan rest
    | rest => { target := word : Directive }.readThreshold rest

/-- Reads a directive. -/
def ofText? (text : String) : Option Directive := ofChars? (trimBlanks text).toList

/-- The more specific of two directives, the later one of equals. -/
def prefer (earlier later : Directive) : Directive :=
  if later.specificity < earlier.specificity then earlier else later

end Directive

/-- A list of directives. -/
structure LogFilter where
  directives : List Directive
  deriving DecidableEq, Repr

namespace LogFilter

/-- The texts between commas that are not empty. -/
def pieces (text : String) : List String := (text.splitOn ",").filter (· != "")

/-- Reads a filter, every directive of which must be readable. -/
def ofText? (text : String) : Option LogFilter := ((pieces text).mapM Directive.ofText?).map mk

/-- Reads a filter, leaving out directives that are not readable. -/
def ofReadable (text : String) : LogFilter := ⟨(pieces text).filterMap Directive.ofText?⟩

/-- The directive that decides about an event. -/
def decisive? (f : LogFilter) (e : Event) : Option Directive :=
  match f.directives.filter (·.isFor e) with
  | [] => none
  | d :: ds => some (ds.foldl Directive.prefer d)

/-- Whether an event is let through. -/
def lets (f : LogFilter) (e : Event) : Bool :=
  (f.decisive? e).any fun d => d.threshold.admits e.level

/-- The filter of the log: the one that is asked for, if it is readable, or else the configured level. -/
def choose (asked : Option String) (level : String) : LogFilter :=
  (asked.bind ofText?).getD (ofReadable level)

end LogFilter

end FieldInjection
