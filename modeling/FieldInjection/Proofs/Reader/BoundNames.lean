import FieldInjection.Proofs.Reader.Spelling
import FieldInjection.Proofs.Text.Identifiers

/-!
# The names that an import statement binds

`boundNames` reads off the text of an import statement which names it binds: a default binding, the namespace behind
`* as`, and the local names of a list, whether as values or as types. It goes by the tokens alone. An identifier of the
settings is a name wherever it stands (`isIdentifier_of_ascii`, `isCutBefore_word`).
-/

namespace FieldInjection.TypeScript

/-- A text that is a name. -/
def isIdentifier (text : String) : Bool :=
  match text.toList with
  | [] => false
  | c :: cs => (isWordStart c || (c = '\\' && cs.head? = some 'u')) && wordLength (c :: cs) = cs.length + 1

/-- A text that is a string. -/
def isQuoted (text : String) : Bool := text.toList.head?.any fun c => c = '\'' || c = '"'

/-- The texts of the tokens that are no comments. -/
def significantTexts (ts : List Token) : List String := (ts.filter fun t => t.kind ≠ .comment).map Token.text

/-- The local names of a list in braces: the last text of each item. `last` is the last one of the item so far. -/
def listedNames (last : Option String) : List String → List String
  | [] => last.toList
  | text :: texts =>
    if text = "\x7d" then last.toList
    else if text = "," then last.toList ++ listedNames none texts
    else listedNames (some text) texts

/-- The names of a list in braces, or the name of a namespace. -/
def groupNames : List String → List String
  | [] => []
  | text :: texts =>
    if text = "\x7b" then listedNames none texts
    -- the star is followed by `as` and the name
    else if text = "*" then (texts.drop 1).take 1
    else []

/-- The names of a clause: a default binding, what stands behind its comma, or only the latter. -/
def clauseNames : List String → List String
  | [] => []
  | text :: texts =>
    if text = "\x7b" ∨ text = "*" then groupNames (text :: texts)
    else if texts.head? = some "," then text :: groupNames (texts.drop 1)
    else [text]

/-- A clause behind the modifier of the whole statement, if it has one. -/
def withoutModifier : List String → List String
  | [] => []
  | text :: texts =>
    if text = "typeof" then texts
    -- in `type from "m"` and `type, { x } from "m"` the word is a name
    else if text = "type" ∧ texts.head? ≠ some "," ∧
        ¬ (texts.head? = some "from" ∧ (texts.drop 1).head?.any isQuoted = true) then texts
    else text :: texts

/-- The names that an import statement binds, read from its text. -/
def boundNames (statement : List Char) : List String :=
  -- the first text is the word `import`
  let texts := (significantTexts (lex false (String.ofList statement))).drop 1
  (clauseNames (withoutModifier texts)).filter isIdentifier

/-- No name goes on with what stands here. -/
def EndsName (rest : List Char) : Prop := ∀ d, rest.head? = some d → isWordPart d = false ∧ d ≠ '\\' ∧ d ≠ '{'

section
variable {x : Token} {rest : List Char} {name : String}

theorem ne_comma_of_isIdentifier (h : isIdentifier name = true) : name ≠ "," := by
  rintro rfl
  revert h
  decide +kernel

theorem ne_brace_of_isIdentifier (h : isIdentifier name = true) : name ≠ "\x7d" := by
  rintro rfl
  revert h
  decide +kernel

theorem significantTexts_congr {ts us : List Token} (h : ts.map Token.lexeme = us.map Token.lexeme) :
    significantTexts ts = significantTexts us := by
  have hlexemes : ∀ ts : List Token, significantTexts ts =
      ((ts.map Token.lexeme).filter fun x => x.1 ≠ .comment).map Prod.snd := by
    intro ts
    rw [List.filter_map, List.map_map]
    rfl
  rw [hlexemes, hlexemes, h]

/-- The names are those of the tokens that spell the statement. -/
theorem boundNames_spelled {w : Token} {ts : List Token} (hcut : AreCut (w :: ts) []) (hblanks : w.blanks = "")
    (htext : w.lexeme = (.word, "import")) :
    boundNames (spelled (w :: ts)) = (clauseNames (withoutModifier (significantTexts ts))).filter isIdentifier := by
  obtain ⟨hkind, htext⟩ := Token.lexeme_eq_iff.mp htext
  have hspelled : spelled (w :: ts) = 'i' :: ("mport".toList ++ spelled ts) := by
    rw [spelled_cons, hblanks, htext]
    rfl
  have hlex : (lex false (String.ofList (spelled (w :: ts)))).map Token.lexeme = (w :: ts).map Token.lexeme := by
    unfold lex
    split
    · rename_i heq
      rw [String.toList_ofList, hspelled] at heq
      cases heq
    · rw [String.toList_ofList]
      exact lexFrom_spelled hcut (by simp [LexState.start])
  have hsignificant : significantTexts (w :: ts) = w.text :: significantTexts ts := by
    have hcomment : w.kind ≠ .comment := by
      rw [hkind]
      decide
    simp [significantTexts, hcomment]
  rw [boundNames, significantTexts_congr hlex, hsignificant]
  rfl

theorem endsName_cons {d : Char} (h : isWordPart d = false ∧ d ≠ '\\' ∧ d ≠ '{') (rest : List Char) :
    EndsName (d :: rest) := by
  rintro d' hd'
  obtain rfl : d = d' := Option.some.inj hd'
  exact h

theorem isBlank_of_mem_space : ∀ c ∈ " ".toList, isBlank c = true := by
  intro c hc
  obtain rfl : c = ' ' := by simpa using hc
  decide

theorem isCutBefore_word (hname : isIdentifier name = true) (start : Nat) {blanks : String}
    (hblanks : ∀ c ∈ blanks.toList, isBlank c = true) (hrest : EndsName rest) :
    (⟨.word, blanks, name, start⟩ : Token).IsCutBefore rest := by
  unfold isIdentifier at hname
  split at hname
  · cases hname
  · rename_i c cs htext
    simp only [Bool.and_eq_true, Bool.or_eq_true, decide_eq_true_eq] at hname
    obtain ⟨hword, hlength⟩ := hname
    have hnonblank : isBlank c = false := by
      rcases hword with hword | ⟨rfl, -⟩
      · simp only [isWordStart, isWordPart, Bool.and_eq_true, Bool.not_eq_true'] at hword
        exact hword.1.1.2
      · decide
    refine ⟨hblanks, c, cs, htext, hnonblank, ?_⟩
    have hend : wordLength (c :: cs ++ []) = (c :: cs).length := by
      rw [List.append_nil]
      exact hlength
    have hlength' : wordLength (c :: cs ++ rest) = (c :: cs).length := wordLength_append hend (Or.inr hrest)
    have hword' : isWordStart c = true ∨ (c = '\\' ∧ (cs ++ rest).head? = some 'u') := by
      refine hword.imp_right fun h => ⟨h.1, ?_⟩
      obtain ⟨tail, rfl⟩ := List.head?_eq_some_iff.mp h.2
      rfl
    rw [plainStep?_word hword']
    exact congrArg (fun n => some (TokenKind.word, n)) hlength'

theorem isCutBefore_brace {brace : Char} {kind : TokenKind} {text : String} (htext : text.toList = [brace])
    (hbrace : brace = '{' ∧ kind = .opener .brace ∨ brace = '}' ∧ kind = .closer .brace) (start : Nat)
    (rest : List Char) : (⟨kind, " ", text, start⟩ : Token).IsCutBefore rest := by
  rcases hbrace with ⟨rfl, rfl⟩ | ⟨rfl, rfl⟩
  · exact ⟨isBlank_of_mem_space, _, [], htext, by decide, by simp [plainStep?, commentLength?_of_ne_slash]⟩
  · exact ⟨isBlank_of_mem_space, _, [], htext, by decide, by simp [plainStep?, commentLength?_of_ne_slash]⟩

end

end FieldInjection.TypeScript

namespace FieldInjection

section
variable {name : String} {c : Char}

/-- The characters of an identifier are those of a name. -/
theorem isWordPart_of_isIdentifierPart (h : isIdentifierPart c = true) :
    TypeScript.isWordPart c = true ∧ (isIdentifierStart c = true → TypeScript.isWordStart c = true) :=
  of_isIdentifierPart (P := fun c => TypeScript.isWordPart c = true ∧
    (isIdentifierStart c = true → TypeScript.isWordStart c = true)) (by decide) h

/-- An identifier of the settings is one of the language. -/
theorem isIdentifier_of_ascii (h : isIdentifier name = true) : TypeScript.isIdentifier name = true := by
  have hparts : ∀ c ∈ name.toList, TypeScript.isWordPart c = true := fun c hc =>
    (isWordPart_of_isIdentifierPart (isIdentifierPart_of_mem h hc)).1
  rw [isIdentifier] at h
  split at h
  · cases h
  · rename_i c cs hname
    have hstart := (Bool.and_eq_true_iff.mp h).1
    have hfirst := (isWordPart_of_isIdentifierPart (isIdentifierPart_of_isIdentifierStart hstart)).2 hstart
    have hlength := TypeScript.wordLength_append_of_parts hparts []
    rw [List.append_nil, TypeScript.wordLength, hname, List.length_cons] at hlength
    rw [TypeScript.isIdentifier, hname]
    simp [hfirst, hlength]

end

end FieldInjection
