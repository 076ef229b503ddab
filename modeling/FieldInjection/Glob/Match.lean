import FieldInjection.Glob.Pattern
import FieldInjection.Glob.Reader
import FieldInjection.Glob.Regex

/-!
# Matching globs

A glob matches the UTF-8 bytes of a text. In a glob for paths the single-byte wildcards stop at a slash;
in one for names they do not. Sets of characters are sets of the bytes in which the listed characters are
written, so a character outside ASCII contributes each of its bytes.
-/

namespace FieldInjection.Glob

/-- The bytes of a character in UTF-8. -/
def charBytes (c : Char) : List UInt8 := (String.singleton c).toUTF8.data.toList

def slash : UInt8 := 47

/-- The byte ranges of a character range: all bytes of both characters, the last byte of the first and the
first byte of the second being the ends of a range. -/
def byteRanges (range : Char × Char) : List (UInt8 × UInt8) :=
  let low := charBytes range.1
  let high := charBytes range.2
  if range.1 = range.2 then low.map fun b => (b, b)
  else
    match low.getLast?, high with
    | some l, h :: rest =>
      low.dropLast.map (fun b => (b, b)) ++ (l, h) :: rest.map fun b => (b, b)
    | _, _ => []

def wildcard (stopsAtSlash : Bool) : ByteSet :=
  if stopsAtSlash then ⟨true, [(slash, slash)]⟩ else .all

mutual

/-- The expressions of a token, to be matched one after the other. An alternation of nothing but empty
branches contributes none. -/
def Token.regexes (stopsAtSlash : Bool) : Token → List Regex
  | .literal c => (charBytes c).map fun b => .byte (.one b)
  | .anyOne => [.byte (wildcard stopsAtSlash)]
  | .anyMany => [.many (wildcard stopsAtSlash)]
  | .leadingDirectories =>
    [.alt (.optional (.byte (.one slash))) (.seq (.many .all) (.byte (.one slash)))]
  | .trailingDirectories => [.byte (.one slash), .many .all]
  | .innerDirectories =>
    [.byte (.one slash), .optional (.seq (.many .all) (.byte (.one slash)))]
  | .set negated ranges => [.byte ⟨negated, ranges.flatMap byteRanges⟩]
  | .alternatives branches =>
    match branchRegexes stopsAtSlash branches with
    | [] => []
    | rs => [.choice rs]

/-- The expressions of a sequence of tokens. -/
def tokenRegexes (stopsAtSlash : Bool) : List Token → List Regex
  | [] => []
  | t :: ts => t.regexes stopsAtSlash ++ tokenRegexes stopsAtSlash ts

/-- One expression for each branch that is not empty. -/
def branchRegexes (stopsAtSlash : Bool) : List (List Token) → List Regex
  | [] => []
  | b :: bs =>
    match tokenRegexes stopsAtSlash b with
    | [] => branchRegexes stopsAtSlash bs
    | rs => .concat rs :: branchRegexes stopsAtSlash bs

end

end FieldInjection.Glob

namespace FieldInjection

/-- A compiled glob. -/
structure Glob where
  regex : Glob.Regex
  deriving DecidableEq, Repr

namespace Glob

/-- The expression of a whole pattern; a lone double star matches everything. -/
def ofTokens (stopsAtSlash : Bool) : List Token → Glob
  | [.leadingDirectories] => ⟨.many .all⟩
  | tokens => ⟨.concat (tokenRegexes stopsAtSlash tokens)⟩

/-- A glob for paths, whose wildcards stop at slashes. -/
def forPaths (pattern : String) : Except PatternError Glob :=
  (readPattern pattern).map (ofTokens true)

def forNames (pattern : String) : Except PatternError Glob :=
  (readPattern pattern).map (ofTokens false)

/-- Whether the glob matches the whole text. -/
def accepts (g : Glob) (text : String) : Bool := g.regex.matches? text.toUTF8.data.toList

/-- The texts that the glob matches. -/
def matcher (g : Glob) : Matcher := ⟨g.accepts⟩

end Glob

/-- The reader that is used where no other is given. -/
instance : GlobReader where
  forPaths pattern := (Glob.forPaths pattern).toOption.map Glob.matcher
  forNames pattern := (Glob.forNames pattern).toOption.map Glob.matcher

end FieldInjection
