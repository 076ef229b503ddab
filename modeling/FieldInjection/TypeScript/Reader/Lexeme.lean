import FieldInjection.TypeScript.Reader.Token

/-!
# The lengths of lexemes

Each function here looks at the text from the first character of a lexeme on and tells how many characters
the lexeme has, or `none` when it does not end. None of them builds a text, so whatever they answer, a
token and what follows it are together the text it was cut from.
-/

namespace FieldInjection.TypeScript

/-- The length of a name. A backslash begins an escaped character of the name. -/
def wordLength : List Char → Nat
  | [] => 0
  | '\\' :: 'u' :: '{' :: cs =>
    let digits := (cs.takeWhile (· ≠ '}')).length
    digits + 4 + wordLength (cs.drop (digits + 1))
  | '\\' :: cs => 1 + wordLength cs
  | c :: cs => if isWordPart c then 1 + wordLength cs else 0
termination_by cs => cs.length
decreasing_by all_goals (simp only [List.length_cons, List.length_drop]; omega)

/-- The length of a number: letters, digits, underscores and dots, and a sign behind an exponent mark.
`marked` tells that the character before was such a mark. -/
def numberLength (decimal marked : Bool) : List Char → Nat
  | [] => 0
  | c :: cs =>
    if (isWordPart c || c = '.') || (marked && (c = '+' || c = '-')) then
      1 + numberLength decimal (decimal && (c = 'e' || c = 'E')) cs
    else 0

/-- The length of a string behind its opening quote. A backslash takes the next character along; a line
may end only there. -/
def stringLength? (quote : Char) : List Char → Option Nat
  | [] => none
  -- a line that goes on behind a backslash
  | '\\' :: '\r' :: '\n' :: cs => (stringLength? quote cs).map (· + 3)
  | '\\' :: _ :: cs => (stringLength? quote cs).map (· + 2)
  | c :: cs =>
    if c = quote then some 1
    else if c = '\n' then none
    else (stringLength? quote cs).map (· + 1)

/-- The length of a piece of a template up to and including its closing backtick or the opening of its
next substitution, and whether it is such an opening. -/
def templateLength? : List Char → Option (Nat × Bool)
  | [] => none
  | '\\' :: _ :: cs => (templateLength? cs).map fun r => (r.1 + 2, r.2)
  | '$' :: '{' :: _ => some (2, true)
  | c :: cs =>
    if c = '\x60' then some (1, false)
    else (templateLength? cs).map fun r => (r.1 + 1, r.2)

/-- The length of a regular expression behind its opening slash, without flags. -/
def regexLength? (inSet : Bool) : List Char → Option Nat
  | [] => none
  | '\\' :: c :: cs => if isLineBreak c then none else (regexLength? inSet cs).map (· + 2)
  | c :: cs =>
    if isLineBreak c then none
    -- between square brackets a slash is a member of the set
    else if c = '/' ∧ !inSet then some 1
    else
      let inSet := if c = '[' then true else if c = ']' then false else inSet
      (regexLength? inSet cs).map (· + 1)

/-- The length of a block comment behind its opening. -/
def blockCommentLength? : List Char → Option Nat
  | [] => none
  | '*' :: '/' :: _ => some 2
  | _ :: cs => (blockCommentLength? cs).map (· + 1)

/-- The length of a line comment behind its opening. -/
def lineCommentLength (cs : List Char) : Nat :=
  (cs.takeWhile fun c => c ≠ '\n' && c ≠ '\r').length

/-- Operators of several characters, longer ones before their beginnings. A `>` always stands alone, since
it may close type arguments. -/
def longOperators : List String :=
  ["===", "!==", "**=", "&&=", "||=", "??=", "...", "<<=", "=>", "==", "!=", "**", "&&", "||", "??",
    "?.", "++", "--", "+=", "-=", "*=", "/=", "%=", "&=", "|=", "^=", "<<", "<="]

/-- Whether type parameters begin here: a name with a bound, or names up to a `>` and a parenthesis. -/
def beginsTypeParameters (cs : List Char) : Bool :=
  let name := cs.dropWhile isBlank
  let behind := (name.drop (wordLength name)).dropWhile isBlank
  let names := name.dropWhile fun c => isWordPart c || isBlank c || c = ','
  name.head?.any isWordStart &&
    ("extends".toList.isPrefixOf behind ||
      match names with
      | '>' :: cs => (cs.dropWhile isBlank).head? == some '('
      | _ => false)

/-- The length of an operator. The mark `?.` is two operators before a digit, and so is `<<` when the
second bracket begins type parameters. -/
def operatorLength (cs : List Char) : Nat :=
  match longOperators.find? fun op => op.toList.isPrefixOf cs with
  | some op =>
    match op, cs.drop 2 with
    | "?.", c :: _ => if c.isDigit then 1 else 2
    | "<<", behind => if beginsTypeParameters behind then 1 else 2
    | _, _ => op.length
  | none => 1

/-- The length of a name in markup, which may hold hyphens, dots and colons. -/
def elementNameLength (cs : List Char) : Nat :=
  (cs.takeWhile fun c => isWordPart c || c = '-' || c = '.' || c = ':').length

/-- The length of plain text in markup. -/
def elementTextLength (cs : List Char) : Nat :=
  (cs.takeWhile fun c => c ≠ '<' && c ≠ '{').length

end FieldInjection.TypeScript
