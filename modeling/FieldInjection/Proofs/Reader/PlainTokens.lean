import FieldInjection.Proofs.Reader.Names

/-!
# Tokens that look the same everywhere

What a slash or an angle bracket begins depends on all that stands before it. The names, strings, comments and few
signs of which import statements are made do not: in ordinary code the lexer cuts them off alike, wherever they stand
(`plainStep?`, `nextStep_of_plainStep?`).
-/

namespace FieldInjection.TypeScript

/-- The signs of an import statement that are no brackets. -/
def plainSigns : List String := [",", "*", ":", ";"]

/-- The kind and the number of characters of the plain token at the beginning of a text. -/
def plainStep? (c : Char) (cs : List Char) : Option (TokenKind × Nat) :=
  match commentLength? (c :: cs) with
  | some (n, ends) => if ends then some (.comment, n) else none
  | none =>
    if c = '{' then some (.opener .brace, 1)
    else if c = '}' then some (.closer .brace, 1)
    else if c = '\'' ∨ c = '"' then (stringLength? c cs).map fun n => (.string, 1 + n)
    else if isWordStart c ∨ (c = '\\' ∧ cs.head? = some 'u') then some (.word, wordLength (c :: cs))
    else if plainSigns.contains (String.singleton c) ∧ operatorLength (c :: cs) = 1 then some (.operator, 1)
    else none

/-- The lexer reads ordinary code here, and no markup. -/
def LexState.InCode (s : LexState) : Prop :=
  s.frames.head? ≠ some .content ∧ s.frames.head? ≠ some .tag ∧ s.frames.head? ≠ some .closingTag

/-- The brackets that are open behind a plain token. -/
def framesBehind (kind : TokenKind) (before after : List Frame) : Prop :=
  match kind with
  | .opener _ => ∃ block, after = .brace block :: before
  | .closer _ => after = before.drop 1
  | _ => after = before

section
variable {markup : Bool} {s : LexState} {c : Char} {cs : List Char} {kind : TokenKind} {n : Nat}

/-- What is found where a plain token begins. -/
theorem plainStep?_cases (h : plainStep? c cs = some (kind, n)) :
    (kind = .comment ∧ commentLength? (c :: cs) = some (n, true)) ∨
    (kind = .opener .brace ∧ c = '{' ∧ n = 1) ∨ (kind = .closer .brace ∧ c = '}' ∧ n = 1) ∨
    (kind = .string ∧ (c = '\'' ∨ c = '"') ∧ ∃ m, stringLength? c cs = some m ∧ n = 1 + m) ∨
    (kind = .word ∧ (isWordStart c = true ∨ (c = '\\' ∧ cs.head? = some 'u')) ∧ n = wordLength (c :: cs)) ∨
    (kind = .operator ∧ plainSigns.contains (String.singleton c) = true ∧ n = 1 ∧ operatorLength (c :: cs) = 1) := by
  -- the cases come in the order in which they are asked for
  unfold plainStep? at h
  split at h
  · rename_i m ends hcomment
    cases ends with
    | false => cases h
    | true =>
      cases h
      exact Or.inl ⟨rfl, hcomment⟩
  refine Or.inr ?_
  split at h
  · rename_i hc
    cases h
    exact Or.inl ⟨rfl, hc, rfl⟩
  refine Or.inr ?_
  split at h
  · rename_i hc
    cases h
    exact Or.inl ⟨rfl, hc, rfl⟩
  refine Or.inr ?_
  split at h
  · rename_i hc
    obtain ⟨m, hm, heq⟩ := Option.map_eq_some_iff.mp h
    cases heq
    exact Or.inl ⟨rfl, hc, m, hm, rfl⟩
  refine Or.inr ?_
  split at h
  · rename_i hc
    cases h
    exact Or.inl ⟨rfl, hc, rfl⟩
  refine Or.inr ?_
  split at h
  · rename_i hc
    cases h
    exact ⟨rfl, hc.1, rfl, hc.2⟩
  · cases h

/-- Outside of markup the lexer reads a comment or ordinary code. -/
theorem nextStep_of_inCode (markup : Bool) (hs : s.InCode) (hcomment : commentLength? (c :: cs) = none) (hc : c ≠ '<')
    (hc' : c ≠ '>') : ∃ markup', nextStep markup s c cs = codeStep markup' s c cs := by
  obtain ⟨hcontent, htag, hclosing⟩ := hs
  unfold nextStep
  split
  · rename_i h
    exact absurd h hcontent
  · rw [hcomment]
    simp only
    split
    · rename_i h
      exact absurd h htag
    · rename_i h
      exact absurd h hclosing
    · exact ⟨false, by simp [tagTypesStep, hc, hc']⟩
    · exact ⟨markup, rfl⟩

theorem codeStep_string (hc : c = '\'' ∨ c = '"') (hn : stringLength? c cs = some n) :
    codeStep markup s c cs = ⟨.string, 1 + n, s.moveTo .operator⟩ := by
  rcases hc with rfl | rfl <;> simp [codeStep, bracketStep?, hn]

/-- What a name begins with is neither a sign nor a digit. -/
theorem ne_of_beginsWord (hc : isWordStart c = true ∨ (c = '\\' ∧ cs.head? = some 'u')) {d : Char}
    (hd : isWordStart d = false) (hd' : d ≠ '\\') : c ≠ d := by
  rintro rfl
  rcases hc with hc | ⟨rfl, -⟩
  · rw [hd] at hc
    cases hc
  · exact hd' rfl

theorem plainStep?_word (hword : isWordStart c = true ∨ (c = '\\' ∧ cs.head? = some 'u')) :
    plainStep? c cs = some (.word, wordLength (c :: cs)) := by
  have hne := fun d => ne_of_beginsWord hword (d := d)
  have hcomment : commentLength? (c :: cs) = none := commentLength?_of_ne_slash (hne '/' (by decide) (by decide))
  have hquotes : ¬ (c = '\'' ∨ c = '"') := not_or.mpr ⟨hne '\'' (by decide) (by decide), hne '"' (by decide) (by decide)⟩
  rw [plainStep?, hcomment]
  simp only
  rw [if_neg (hne '{' (by decide) (by decide)), if_neg (hne '}' (by decide) (by decide)), if_neg hquotes, if_pos hword]

theorem mem_plainSigns_iff : plainSigns.contains (String.singleton c) = true ↔
    c = ',' ∨ c = '*' ∨ c = ':' ∨ c = ';' := by
  have hsingle : ∀ d : Char, String.singleton c = String.singleton d ↔ c = d := by
    intro d
    refine ⟨fun h => ?_, fun h => h ▸ rfl⟩
    simpa using congrArg String.toList h
  rw [← hsingle, ← hsingle, ← hsingle, ← hsingle]
  simp [plainSigns]

/-- Only comments begin with a slash. -/
theorem ne_slash_of_plainStep? (h : plainStep? c cs = some (kind, n)) (hkind : kind ≠ .comment) : c ≠ '/' := by
  rintro rfl
  rcases plainStep?_cases h with h | h | h | h | h | h
  · exact hkind h.1
  · exact absurd h.2.1 (by decide)
  · exact absurd h.2.1 (by decide)
  · exact absurd h.2.1 (by decide)
  · exact absurd rfl (ne_of_beginsWord h.2.1 (by decide) (by decide))
  · exact absurd h.2.1 (by decide)

theorem codeStep_word (hc : isWordStart c = true ∨ (c = '\\' ∧ cs.head? = some 'u')) :
    codeStep markup s c cs =
      ⟨.word, wordLength (c :: cs), s.overWord (String.ofList ((c :: cs).take (wordLength (c :: cs))))⟩ := by
  -- the step asks for brackets, quotes, the dot and digits before it asks for words
  have hne := fun d => ne_of_beginsWord hc (d := d)
  have hbracket : bracketStep? s c = none := by
    unfold bracketStep?
    simp only
    split
    · exact absurd rfl (hne '(' (by decide) (by decide))
    · exact absurd rfl (hne '[' (by decide) (by decide))
    · exact absurd rfl (hne '{' (by decide) (by decide))
    · exact absurd rfl (hne ')' (by decide) (by decide))
    · exact absurd rfl (hne ']' (by decide) (by decide))
    · exact absurd rfl (hne '}' (by decide) (by decide))
    · rfl
  have hdigit : c.isDigit = false := by
    rcases hc with hc | ⟨rfl, -⟩
    · simp only [isWordStart, Bool.and_eq_true, Bool.not_eq_true'] at hc
      exact hc.2
    · rfl
  have hclose := hne '}' (by decide) (by decide)
  have hquote := hne '\'' (by decide) (by decide)
  have hdoubleQuote := hne '"' (by decide) (by decide)
  have hbacktick := hne '\x60' (by decide) (by decide)
  have hdot := hne '.' (by decide) (by decide)
  simp [codeStep, hbracket, hclose, hquote, hdoubleQuote, hbacktick, hdot, hdigit, hc]

theorem codeStep_sign (hc : plainSigns.contains (String.singleton c) = true)
    (hn : operatorLength (c :: cs) = 1) : (codeStep markup s c cs).kind = .operator ∧
      (codeStep markup s c cs).size = 1 ∧ (codeStep markup s c cs).state.frames = s.frames := by
  rcases mem_plainSigns_iff.mp hc with rfl | rfl | rfl | rfl <;>
    simp [codeStep, bracketStep?, hn, isWordStart, isWordPart, isPunctuation, isBlank]

/-- In ordinary code a plain token is cut off wherever it stands. Only the brace behind a substitution belongs to
the template around it. -/
theorem nextStep_of_plainStep? (markup : Bool) (hs : s.InCode) (hbrace : c = '}' → s.frames.head? ≠ some .substitution)
    (h : plainStep? c cs = some (kind, n)) : (nextStep markup s c cs).kind = kind ∧
      (nextStep markup s c cs).size = n ∧ framesBehind kind s.frames (nextStep markup s c cs).state.frames := by
  by_cases hkind : kind = .comment
  · -- a comment is read wherever there is no content of markup
    subst hkind
    rcases plainStep?_cases h with ⟨-, hcomment⟩ | h | h | h | h | h
    · have hcontent := hs.1
      unfold nextStep
      split
      · rename_i hframe
        exact absurd hframe hcontent
      · rw [hcomment]
        exact ⟨rfl, rfl, rfl⟩
    all_goals exact absurd h.1 (by decide)
  have hcomment : commentLength? (c :: cs) = none := commentLength?_of_ne_slash (ne_slash_of_plainStep? h hkind)
  -- all else is read as ordinary code, for no plain token begins with an angle bracket
  have hcode : c ≠ '<' → c ≠ '>' → ∃ markup', nextStep markup s c cs = codeStep markup' s c cs :=
    nextStep_of_inCode markup hs hcomment
  rcases plainStep?_cases h with ⟨rfl, -⟩ | ⟨rfl, rfl, rfl⟩ | ⟨rfl, rfl, rfl⟩ | ⟨rfl, hquote, m, hm, rfl⟩ |
    ⟨rfl, hword, rfl⟩ | ⟨rfl, hsign, rfl, hlength⟩
  · exact absurd rfl hkind
  · obtain ⟨markup', heq⟩ := hcode (by decide) (by decide)
    rw [heq]
    simp [codeStep, bracketStep?, framesBehind, LexState.enter]
  · obtain ⟨markup', heq⟩ := hcode (by decide) (by decide)
    rw [heq]
    simp [codeStep, hbrace rfl, bracketStep?, framesBehind, LexState.leave]
  · obtain ⟨markup', heq⟩ := hcode (by rcases hquote with rfl | rfl <;> decide)
      (by rcases hquote with rfl | rfl <;> decide)
    rw [heq, codeStep_string hquote hm]
    exact ⟨rfl, rfl, rfl⟩
  · obtain ⟨markup', heq⟩ := hcode (ne_of_beginsWord hword (by decide) (by decide))
      (ne_of_beginsWord hword (by decide) (by decide))
    rw [heq, codeStep_word hword]
    exact ⟨rfl, rfl, rfl⟩
  · obtain ⟨markup', heq⟩ := hcode (by rintro rfl; revert hsign; decide) (by rintro rfl; revert hsign; decide)
    rw [heq]
    exact codeStep_sign hsign hlength

theorem inCode_congr {s s' : LexState} (h : s'.frames = s.frames) (hs : s.InCode) : s'.InCode := by
  unfold LexState.InCode at hs ⊢
  rw [h]
  exact hs

end

end FieldInjection.TypeScript
