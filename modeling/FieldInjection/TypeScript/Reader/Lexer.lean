import FieldInjection.TypeScript.Reader.Lexeme

/-!
# Cutting a source text into tokens

Which token a slash, a `<` or a closing brace begins depends on what stands before it. The lexer therefore
keeps the *place* it is at (may a statement begin here, must an operand follow, has one just ended?) and
the brackets that are open, of which templates and markup elements switch to rules of their own.

A step of the lexer only decides on the kind and the number of characters of the next token, so the
tokens and the blanks in front of them are the text they were cut from.
-/

namespace FieldInjection.TypeScript

/-- What may come next. -/
inductive Place where
  /-- A statement. -/
  | statement
  /-- An operand. -/
  | operand
  /-- An operator, since an operand has just ended. -/
  | operator
  /-- The body of an arrow function. -/
  | arrowBody
  /-- Behind `void`: an operand, or the body of a function that gives nothing. -/
  | operandOrBody
  /-- Behind a word that a type follows, unless it is a name. -/
  | typeOrOperator
  deriving DecidableEq, Repr

namespace Place

/-- Words behind which a statement begins. -/
def statementWords : List String := ["else", "do", "try", "finally"]

/-- Words behind which an operand must follow. -/
def operandWords : List String :=
  ["return", "typeof", "instanceof", "in", "new", "delete", "throw", "case", "yield", "await", "extends"]

/-- Names that are also words behind which a type follows. -/
def typeWords : List String := ["implements", "keyof", "as", "satisfies", "is"]

/-- The place behind a word; a word behind a dot is the name of a member. -/
def afterWord (isMember : Bool) (word : String) : Place :=
  if isMember then operator
  else if word = "void" then operandOrBody
  else if statementWords.contains word then statement
  else if operandWords.contains word then operand
  else if typeWords.contains word then typeOrOperator
  else operator

/-- Words behind which a type must follow. -/
def typeOperandWords : List String :=
  ["keyof", "typeof", "extends", "is", "infer", "readonly", "unique", "new"]

/-- The place behind a word in a type. -/
def afterTypeWord (isMember : Bool) (word : String) : Place :=
  if !isMember && typeOperandWords.contains word then operand else operator

def afterOperator (here : Place) : String → Place
  | ";" => statement
  | "=>" => arrowBody
  -- these stand before or behind an operand and change nothing
  | "++" => here
  | "--" => here
  | "!" => here
  | _ => operand

/-- Whether a brace here opens a block of statements rather than a list of entries. -/
def opensBlock : Place → Bool
  | operand => false
  | typeOrOperator => false
  | _ => true

end Place

/-- A bracket that is open, with what its end needs to know. -/
inductive Frame where
  /-- A parenthesis; it may enclose the head of a control statement. -/
  | paren (control : Bool)
  | square
  | brace (block : Bool)
  /-- A substitution of a template. -/
  | substitution
  /-- The opening tag of a markup element. -/
  | tag
  /-- The type arguments in a tag, with the number of angle brackets open inside. -/
  | tagTypes (angles : Nat)
  /-- The content of a markup element. -/
  | content
  /-- The closing tag of a markup element. -/
  | closingTag
  deriving DecidableEq, Repr

/-- Words with a head in parentheses. -/
def controlWords : List String := ["if", "while", "for", "with"]

/-- The lexer's state between two tokens. -/
structure LexState where
  frames : List Frame
  place : Place
  /-- The last token is a dot that leads to a member. -/
  afterDot : Bool
  /-- The last token is a word that a parenthesized head follows. -/
  afterControl : Bool
  deriving DecidableEq, Repr

namespace LexState

/-- The state at the beginning of a text. -/
def start : LexState := ⟨[], .statement, false, false⟩

def moveTo (s : LexState) (place : Place) : LexState := ⟨s.frames, place, false, false⟩

def enter (s : LexState) (frame : Frame) (place : Place) : LexState :=
  ⟨frame :: s.frames, place, false, false⟩

/-- The state behind a word. In the head of a loop an operand follows `of`. -/
def overWord (s : LexState) (word : String) : LexState :=
  -- `for (const x of xs)`: elsewhere `of` is a plain name
  let joins := s.frames.head? = some (.paren true) ∧ s.place = .operator ∧ word = "of"
  ⟨s.frames, if joins then .operand else .afterWord s.afterDot word, false,
    !s.afterDot && controlWords.contains word⟩

/-- The state behind the innermost bracket. -/
def leave (s : LexState) (place : Place) : LexState := ⟨s.frames.drop 1, place, false, false⟩

end LexState

/-- The next token: its kind, its number of characters, and the state behind it. -/
structure Step where
  kind : TokenKind
  size : Nat
  state : LexState

def containsText (part : List Char) : List Char → Bool
  | [] => part.isEmpty
  | c :: cs => part.isPrefixOf (c :: cs) || containsText part cs

/-- Whether a markup element begins with the `<` before this text, rather than type parameters: it does
unless a name is followed by a comma or by `extends`, or by a parenthesis behind a `>` without a closing
tag of that name anywhere. -/
def beginsElement (cs : List Char) : Bool :=
  match cs with
  | [] => false
  | c :: _ =>
    if c = '>' then true
    else if !isWordStart c then false
    else
      let name := cs.take (elementNameLength cs)
      let rest := (cs.drop (elementNameLength cs)).dropWhile isBlank
      -- what follows the name tells type parameters from a tag
      if rest.head? = some ',' then false
      else if "extends".toList.isPrefixOf rest then false
      else if ['>', '('].isPrefixOf rest then containsText ('<' :: '/' :: name) rest
      else true

/-- A comment, if one begins here: its number of characters, and whether it ends. -/
def commentLength? : List Char → Option (Nat × Bool)
  | '/' :: '/' :: cs => some (2 + lineCommentLength cs, true)
  | '/' :: '*' :: cs =>
    -- one that never ends takes the rest of the text
    match blockCommentLength? cs with
    | some n => some (2 + n, true)
    | none => some (2 + cs.length, false)
  | _ => none

/-- A piece of template text, up to the end of the template or the beginning of a substitution. -/
def templateStep (s : LexState) (isFirst : Bool) (cs : List Char) : Step :=
  match templateLength? cs, isFirst with
  | some (n, true), true => ⟨.opener .template, 1 + n, s.enter .substitution .operand⟩
  | some (n, false), true => ⟨.literal, 1 + n, s.moveTo .operator⟩
  | some (n, true), false => ⟨.templateText, 1 + n, s.moveTo .operand⟩
  | some (n, false), false => ⟨.closer .template, 1 + n, s.leave .operator⟩
  | none, _ => ⟨.malformed, 1 + cs.length, s.moveTo .operator⟩

/-- The place behind the closing bracket of a frame. -/
def Frame.placeBehind : Frame → Place
  -- behind the head of a control statement, and behind a block
  | .paren true => .statement
  | .brace true => .statement
  | _ => .operator

/-- The token of a bracket, if the character is one. -/
def bracketStep? (s : LexState) (c : Char) : Option Step :=
  -- the frame says what follows, even where the bracket does not match its opener
  let close (b : Bracket) : Step :=
    ⟨.closer b, 1, s.leave (match s.frames with | f :: _ => f.placeBehind | [] => .operator)⟩
  match c with
  | '(' => some ⟨.opener .paren, 1, s.enter (.paren s.afterControl) .operand⟩
  | '[' => some ⟨.opener .square, 1, s.enter .square .operand⟩
  | '{' =>
    let block := s.place.opensBlock
    some ⟨.opener .brace, 1, s.enter (.brace block) (if block then .statement else .operand)⟩
  | ')' => some (close .paren)
  | ']' => some (close .square)
  | '}' => some (close .brace)
  | _ => none

/-- The token that begins with a slash which begins no comment. -/
def slashStep (s : LexState) (cs : List Char) : Step :=
  -- a division behind an operand, else the start of a regular expression; no type begins with a slash
  if s.place = .operator ∨ s.place = .typeOrOperator then
    let n := operatorLength ('/' :: cs)
    ⟨.operator, n, s.moveTo .operand⟩
  else
    match regexLength? false cs with
    | some n =>
      let flags := wordLength (cs.drop n)
      ⟨.literal, 1 + n + flags, s.moveTo .operator⟩
    | none => ⟨.operator, 1, s.moveTo .operand⟩

/-- The next token of ordinary code, which begins with `c`. -/
def codeStep (markup : Bool) (s : LexState) (c : Char) (cs : List Char) : Step :=
  -- the brace that closes a substitution goes on with the template
  if s.frames.head? = some .substitution ∧ c = '}' then templateStep s false cs
  else
    match bracketStep? s c with
    | some step => step
    | none =>
      -- strings, templates, numbers, names, and what is left: slashes, markup and signs
      if c = '\'' ∨ c = '"' then
        match stringLength? c cs with
        | some n => ⟨.string, 1 + n, s.moveTo .operator⟩
        | none => ⟨.malformed, 1, s.moveTo .operator⟩
      else if c = '\x60' then templateStep s true cs
      else if c.isDigit ∨ (c = '.' ∧ (cs.head?.any Char.isDigit)) then
        -- only decimal numbers have fractions and signed exponents
        let decimal := !(c = '0' && cs.head?.any fun d => d = 'x' || d = 'X')
        ⟨.literal, 1 + numberLength decimal false cs, s.moveTo .operator⟩
      else if isWordStart c ∨ (c = '\\' ∧ cs.head? = some 'u') then
        let n := wordLength (c :: cs)
        let word := String.ofList ((c :: cs).take n)
        ⟨.word, n, s.overWord word⟩
      else if c = '#' then
        if cs.head?.any isWordStart then ⟨.privateName, 1 + wordLength cs, s.moveTo .operator⟩
        else ⟨.malformed, 1, s.moveTo .operand⟩
      else if c = '/' then slashStep s cs
      -- where an operator must follow, a `<` compares or opens type arguments
      else if c = '<' ∧ markup ∧ s.place ≠ .operator ∧ beginsElement cs then
        ⟨.opener .element, 1, s.enter .tag .operand⟩
      else if isPunctuation c ∧ c ≠ '\\' then
        let n := operatorLength (c :: cs)
        let sign := String.ofList ((c :: cs).take n)
        ⟨.operator, n, ⟨s.frames, s.place.afterOperator sign, sign == "." || sign == "?.", false⟩⟩
      else ⟨.malformed, 1, s.moveTo .operand⟩

/-- The next token inside a tag of a markup element. -/
def tagStep (s : LexState) (closing : Bool) (c : Char) (cs : List Char) : Step :=
  if c = '>' then
    if closing then ⟨.closer .element, 1, s.leave .operator⟩
    -- the opening tag is over and its content begins, still inside the same group
    else ⟨.operator, 1, ⟨.content :: s.frames.drop 1, .operand, false, false⟩⟩
  else if c = '/' ∧ cs.head? = some '>' then ⟨.closer .element, 2, s.leave .operator⟩
  else if c = '{' then ⟨.opener .brace, 1, s.enter (.brace false) .operand⟩
  else if c = '<' then
    -- behind the tag's name these are type arguments, behind `=` an element as a value
    if s.place = .operator then ⟨.operator, 1, s.enter (.tagTypes 0) .operand⟩
    else ⟨.opener .element, 1, s.enter .tag .operand⟩
  else if c = '\'' ∨ c = '"' then
    ⟨.string, 1 + ((cs.takeWhile (· ≠ c)).length + 1), s.moveTo .operator⟩
  else if isWordPart c then ⟨.elementText, elementNameLength (c :: cs), s.moveTo .operator⟩
  else ⟨.operator, 1, s.moveTo .operand⟩

/-- The next token among the type arguments of a tag. -/
def tagTypesStep (s : LexState) (angles : Nat) (c : Char) (cs : List Char) : Step :=
  if c = '<' then ⟨.operator, 1, ⟨.tagTypes (angles + 1) :: s.frames.drop 1, .operand, false, false⟩⟩
  else if c = '>' then
    match angles with
    | 0 => ⟨.operator, 1, s.leave .operator⟩
    | angles + 1 => ⟨.operator, 1, ⟨.tagTypes angles :: s.frames.drop 1, .operator, false, false⟩⟩
  else codeStep false s c cs

/-- The next token in the content of a markup element. -/
def contentStep (s : LexState) (c : Char) (cs : List Char) : Step :=
  if c = '{' then ⟨.opener .brace, 1, s.enter (.brace false) .operand⟩
  else if c = '<' then
    -- the closing tag belongs to the element that is open
    if cs.head? = some '/' then
      ⟨.operator, 2, ⟨.closingTag :: s.frames.drop 1, .operand, false, false⟩⟩
    else ⟨.opener .element, 1, s.enter .tag .operand⟩
  else ⟨.elementText, elementTextLength (c :: cs), s.moveTo .operand⟩

/-- The next token, which begins with `c`. Comments stand wherever there is no plain text. -/
def nextStep (markup : Bool) (s : LexState) (c : Char) (cs : List Char) : Step :=
  match s.frames.head? with
  | some .content => contentStep s c cs
  | frame? =>
    match commentLength? (c :: cs) with
    | some (n, ends) => ⟨if ends then .comment else .malformed, n, s⟩
    | none =>
      match frame? with
      | some .tag => tagStep s false c cs
      | some .closingTag => tagStep s true c cs
      | some (.tagTypes angles) => tagTypesStep s angles c cs
      | _ => codeStep markup s c cs

/-- Cuts a text into tokens from a given offset on. -/
def lexFrom (markup : Bool) (s : LexState) (offset : Nat) (cs : List Char) : List Token :=
  let blanks := String.ofList (cs.takeWhile isBlank)
  match h : cs.dropWhile isBlank with
  | [] => []
  | c :: rest =>
    let step := nextStep markup s c rest
    -- a token has at least one character, whatever the step says
    let text := String.ofList ((c :: rest).take (step.size - 1 + 1))
    let start := offset + blanks.utf8ByteSize
    ⟨step.kind, blanks, text, start⟩ ::
      lexFrom markup step.state (start + text.utf8ByteSize) (rest.drop (step.size - 1))
termination_by cs.length
decreasing_by
  have hle : (c :: rest).length ≤ cs.length := h ▸ (List.dropWhile_sublist isBlank).length_le
  simp only [List.length_drop, List.length_cons] at *
  omega

/-- The tokens of a source text. A first line that begins with `#!` is a comment. -/
def lex (markup : Bool) (text : String) : List Token :=
  match text.toList with
  | '#' :: '!' :: cs =>
    let line := String.ofList ('#' :: '!' :: cs.takeWhile fun c => c ≠ '\n' && c ≠ '\r')
    ⟨.comment, "", line, 0⟩ ::
      lexFrom markup .start line.utf8ByteSize (cs.dropWhile fun c => c ≠ '\n' && c ≠ '\r')
  | cs => lexFrom markup .start 0 cs

end FieldInjection.TypeScript
