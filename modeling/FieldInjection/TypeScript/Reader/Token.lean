/-!
# Tokens of TypeScript

A source text is a sequence of tokens, each with the blank space in front of it. Comments are tokens like
all others. Brackets come in pairs, and so do the two ends of a template with substitutions and the two
ends of a markup element, so that a token may open or close a group.
-/

namespace FieldInjection.TypeScript

/-- The kinds of groups. -/
inductive Bracket where
  | paren
  | square
  | brace
  /-- A template with substitutions, from its first to its last piece of text. -/
  | template
  /-- A markup element, from the first `<` to the last `>`. -/
  | element
  deriving DecidableEq, Repr

/-- The kinds of tokens. -/
inductive TokenKind where
  | comment
  /-- A name or keyword. -/
  | word
  /-- A name behind a number sign. -/
  | privateName
  | string
  /-- A number, a regular expression or a template without substitutions. -/
  | literal
  | operator
  | opener (bracket : Bracket)
  | closer (bracket : Bracket)
  /-- Text between two substitutions of a template. -/
  | templateText
  /-- A name or text inside a markup element. -/
  | elementText
  /-- Something that is no token of the language. -/
  | malformed
  deriving DecidableEq, Repr

/-- A token, where it starts, and the blank space in front of it. -/
structure Token where
  kind : TokenKind
  blanks : String
  text : String
  start : Nat
  deriving DecidableEq, Repr

/-- The offset just behind a token. -/
def Token.stop (t : Token) : Nat := t.start + t.text.utf8ByteSize

/-- Blank space between tokens: the blanks of ASCII, the space separators of Unicode, the line and
paragraph separators, and the invisible marks U+200B, U+2060 and U+FEFF. -/
def isBlank (c : Char) : Bool :=
  c = ' ' || ('\t' ≤ c && c ≤ '\r') || c = '\u00a0' || c = '\u1680' ||
    ('\u2000' ≤ c && c ≤ '\u200b') || c = '\u2028' || c = '\u2029' || c = '\u202f' ||
    c = '\u205f' || c = '\u2060' || c = '\u3000' || c = '\ufeff'

/-- A character that ends a line. -/
def isLineBreak (c : Char) : Bool := c = '\n' || c = '\r' || c = '\u2028' || c = '\u2029'

/-- Punctuation of ASCII, none of which can be part of a name. -/
def isPunctuation (c : Char) : Bool :=
  (":;\x60\"'@#.,|^&<=>+-*/\\%?!~()[]\x7b\x7d".toList).contains c

/-- A character that can stand in a name. -/
def isWordPart (c : Char) : Bool := ' ' < c && !isBlank c && !isPunctuation c

/-- A character that can begin a name. -/
def isWordStart (c : Char) : Bool := isWordPart c && !c.isDigit

/-- Whether a line ends in the text. -/
def hasLineBreak (s : String) : Bool := s.toList.any isLineBreak

end FieldInjection.TypeScript
