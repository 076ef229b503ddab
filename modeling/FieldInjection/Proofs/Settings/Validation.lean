import FieldInjection.Program
import FieldInjection.Proofs.Planning.AccessorCalls
import FieldInjection.Proofs.Reader.BoundNames

/-!
# Which settings are valid

The name of the accessor goes from the settings into every file that is migrated, and their validation is all that
guards it. It lets through the names that are spelled like an identifier in ASCII (`isIdentifier_iff`), whatever made
the settings (`accessor_of_configure`). Such a name is one word wherever it is written: a call begins with it and an
opening parenthesis (`lexFrom_call`), and an import statement binds it and nothing else (`boundNames_import`). But the
reserved words of the language are spelled like identifiers too, and are let through with them (`validate_account`).
-/

namespace FieldInjection

/-- The character is a letter of ASCII. -/
def IsAsciiLetter (c : Char) : Prop := 'A' ≤ c ∧ c ≤ 'Z' ∨ 'a' ≤ c ∧ c ≤ 'z'

/-- The character is a digit of ASCII. -/
def IsAsciiDigit (c : Char) : Prop := '0' ≤ c ∧ c ≤ '9'

/-- The name is spelled like an identifier, in ASCII: with letters, digits, underscores and dollar signs, and with no
digit in front. -/
structure IsAsciiName (name : String) : Prop where
  nonempty : name ≠ ""
  characters : ∀ c ∈ name.toList, IsAsciiLetter c ∨ IsAsciiDigit c ∨ c = '_' ∨ c = '$'
  first : ∀ c, name.toList.head? = some c → ¬ IsAsciiDigit c

/-- The reserved words of ECMAScript. -/
def reservedWords : List String :=
  ["await", "break", "case", "catch", "class", "const", "continue", "debugger", "default", "delete", "do", "else",
    "enum", "export", "extends", "false", "finally", "for", "function", "if", "import", "in", "instanceof", "new",
    "null", "return", "super", "switch", "this", "throw", "true", "try", "typeof", "var", "void", "while", "with",
    "yield"]

/-- The name is an identifier, in ASCII: spelled like one and no reserved word. -/
def IsAsciiIdentifier (name : String) : Prop := IsAsciiName name ∧ name ∉ reservedWords

/-- The settings are valid but for the name of the accessor, of which this says nothing. -/
structure Settings.HasValidRest (s : Settings) : Prop where
  including : s.project.including ≠ []
  accessorModule : ∃ c ∈ s.migration.accessorModule.toList, isBlank c = false
  classNamePattern : s.migration.classNamePattern ≠ ""
  level : ∃ level, LogLevel.ofName? s.logging.level = some level

section
variable {name : String} {c : Char} {s : Settings}

/-! ## Names -/

theorem isAlpha_iff : c.isAlpha = true ↔ IsAsciiLetter c := by
  simp only [isAlpha_eq, Bool.or_eq_true, Bool.and_eq_true, decide_eq_true_eq, ge_iff_le]
  rfl

theorem isDigit_iff : c.isDigit = true ↔ IsAsciiDigit c := by
  simp only [Char.isDigit, Bool.and_eq_true, decide_eq_true_eq, ge_iff_le]
  rfl

theorem isIdentifierStart_iff : isIdentifierStart c = true ↔ IsAsciiLetter c ∨ c = '_' ∨ c = '$' := by
  simp only [isIdentifierStart, Bool.or_eq_true, decide_eq_true_eq, isAlpha_iff, or_assoc]

theorem isIdentifierPart_iff : isIdentifierPart c = true ↔ IsAsciiLetter c ∨ IsAsciiDigit c ∨ c = '_' ∨ c = '$' := by
  simp only [isIdentifierPart, Bool.or_eq_true, isIdentifierStart_iff, isDigit_iff]
  tauto

/-- No identifier begins with a digit. -/
theorem not_isAsciiDigit (h : isIdentifierStart c = true) : ¬ IsAsciiDigit c := by
  rw [← isDigit_iff, Bool.not_eq_true]
  exact of_isIdentifierPart (P := fun c => isIdentifierStart c = true → c.isDigit = false) (by decide)
    (isIdentifierPart_of_isIdentifierStart h) h

/-- The identifiers of the settings are the names that are spelled like one. -/
theorem isIdentifier_iff : isIdentifier name = true ↔ IsAsciiName name := by
  rw [isIdentifier]
  split
  · rename_i hname
    refine iff_of_false Bool.false_ne_true fun h => h.nonempty ?_
    rw [← String.ofList_toList (s := name), hname]
  · rename_i d ds hname
    rw [Bool.and_eq_true, List.all_eq_true]
    constructor
    · rintro ⟨hd, hds⟩
      refine ⟨?_, ?_, ?_⟩
      · rintro rfl
        cases hname
      · rw [hname]
        exact List.forall_mem_cons.mpr ⟨isIdentifierPart_iff.mp (isIdentifierPart_of_isIdentifierStart hd),
          fun c hc => isIdentifierPart_iff.mp (hds c hc)⟩
      · rw [hname]
        rintro c hc
        obtain rfl : d = c := Option.some.inj hc
        exact not_isAsciiDigit hd
    · intro h
      have hcharacters := h.characters
      rw [hname, List.forall_mem_cons] at hcharacters
      have hfirst : ¬ IsAsciiDigit d := h.first d (by rw [hname]; rfl)
      refine ⟨isIdentifierStart_iff.mpr ?_, fun c hc => isIdentifierPart_iff.mpr (hcharacters.2 c hc)⟩
      exact hcharacters.1.imp_right fun hd => hd.resolve_left hfirst

/-- Reserved words are spelled like identifiers. -/
theorem isAsciiName_iff : IsAsciiName name ↔ IsAsciiIdentifier name ∨ name ∈ reservedWords := by
  constructor
  · intro h
    by_cases hreserved : name ∈ reservedWords
    · exact Or.inr hreserved
    · exact Or.inl ⟨h, hreserved⟩
  · rintro (h | hreserved)
    · exact h.1
    · have hall : ∀ word ∈ reservedWords, isIdentifier word = true := by decide +kernel
      exact isIdentifier_iff.mp (hall name hreserved)

/-! ## What is let through -/

/-- With a valid rest it is the name of the accessor that decides. -/
theorem validate_of_hasValidRest (h : s.HasValidRest) : s.validate =
    if isIdentifier s.migration.accessorFunction then .ok ()
    else .error (misconfigured
      ("Accessor function '" ++ s.migration.accessorFunction ++ "' is not a valid identifier")) := by
  have hincluding : s.project.including.isEmpty = false := List.isEmpty_eq_false_iff.mpr h.including
  have hmodule : s.migration.accessorModule.toList.all isBlank = false := by
    obtain ⟨c, hc, hblank⟩ := h.accessorModule
    exact List.all_eq_false.mpr ⟨c, hc, by simp [hblank]⟩
  obtain ⟨level, hlevel⟩ := h.level
  rw [Settings.validate, hincluding, hmodule]
  cases hname : isIdentifier s.migration.accessorFunction with
  | false => rfl
  | true => simp [h.classNamePattern, readLogLevel, hlevel]

/-- Valid settings are so in every part. -/
theorem of_validate (h : s.validate = .ok ()) :
    s.HasValidRest ∧ isIdentifier s.migration.accessorFunction = true := by
  -- each check that is passed says of its part that it is valid
  unfold Settings.validate at h
  split at h
  · cases h
  rename_i hincluding
  split at h
  · cases h
  rename_i hmodule
  split at h
  · cases h
  rename_i hname
  split at h
  · cases h
  rename_i hpattern
  refine ⟨⟨by simpa using hincluding, ?_, hpattern, ?_⟩, by simpa using hname⟩
  · obtain ⟨c, hc, hblank⟩ := List.all_eq_false.mp (Bool.not_eq_true _ ▸ hmodule)
    exact ⟨c, hc, by simpa using hblank⟩
  · unfold readLogLevel at h
    cases hlevel : LogLevel.ofName? s.logging.level with
    | none =>
      rw [hlevel] at h
      cases h
    | some level => exact ⟨level, rfl⟩

/-- Whatever flags, files and variables say, no other accessor gets into the settings of a run. -/
theorem accessor_of_configure {f : Flags} {surroundings : Surroundings} {d : Disk} {loaded : LoadedSettings}
    (h : f.configure surroundings d = .ok loaded) :
    loaded.settings.HasValidRest ∧ IsAsciiName loaded.settings.migration.accessorFunction := by
  unfold Flags.configure at h
  split at h
  · cases h
  · dsimp only at h
    split at h
    · cases h
    · rename_i hvalid
      cases h
      exact (of_validate hvalid).imp_right isIdentifier_iff.mp

end

/-! ## What is written -/

namespace TypeScript

section
variable {name : String} {s : LexState}

/-- In ordinary code an opening parenthesis is a token of its own. -/
theorem reads_parenthesis (markup : Bool) (hs : s.InCode) (rest : List Char) :
    ∃ s', Reads markup s [⟨.opener .paren, "", "(", 0⟩] rest s' := by
  have hcomment : commentLength? ('(' :: rest) = none := rfl
  obtain ⟨markup', hnext⟩ := nextStep_of_inCode markup hs hcomment (by decide) (by decide)
  have hstep : codeStep markup' s '(' rest = ⟨.opener .paren, 1, s.enter (.paren s.afterControl) .operand⟩ := by
    simp [codeStep, bracketStep?]
  exact ⟨_, .cons (by simp) rfl (by decide) (hnext.trans hstep) rfl rfl (.nil _ rest)⟩

/-- Wherever a call stands in code, a word is read that is the name of the accessor, and a parenthesis behind it. -/
theorem lexFrom_call (hname : isIdentifier name = true) (markup : Bool) (hs : s.InCode) {className text : String}
    {q : Parameter} (hcall : Accessor.call name className q = .ok text) (offset : Nat) (rest : List Char) :
    ∃ us, (lexFrom markup s offset (text.toList ++ rest)).map Token.lexeme =
      (.word, name) :: (.opener .paren, "(") :: us := by
  obtain ⟨back, rfl⟩ : ∃ back, text = name ++ ("(" ++ back) := by
    cases htarget : Accessor.target className q with
    | error refusal =>
      rw [Accessor.call, htarget] at hcall
      cases hcall
    | ok target =>
      rw [Accessor.call_of_target htarget] at hcall
      cases hcall
      refine ⟨target ++ Accessor.optionsArgument (ResolutionOptions.ofDecorators q.decorators).enabled ++ ")", ?_⟩
      simp only [String.append_assoc]
  -- the word ends before the parenthesis and leaves the code around it as it was
  have hends : EndsName ('(' :: (back.toList ++ rest)) := endsName_cons (by decide) _
  have hword : (⟨.word, "", name, 0⟩ : Token).IsCutBefore _ := isCutBefore_word hname 0 (by simp) hends
  obtain ⟨s₁, hreads₁, hframes⟩ := reads_of_isCutBefore markup hs (by rintro ⟨b, hb⟩; cases hb) hword
  obtain ⟨s₂, hreads₂⟩ := reads_parenthesis markup (inCode_congr hframes hs) (back.toList ++ rest)
  have hlex := lexFrom_of_reads (@Reads.append _ _ _ _ [_] _ _ hreads₁ hreads₂) offset
  have hspelled : (name ++ ("(" ++ back)).toList ++ rest =
      spelled [⟨.word, "", name, 0⟩, ⟨.opener .paren, "", "(", 0⟩] ++ (back.toList ++ rest) := by
    simp
  rw [hspelled]
  exact ⟨_, congrArg (List.map Token.lexeme) hlex⟩

/-- An import statement with the name alone in its list binds the name. -/
theorem boundNames_import (hname : isIdentifier name = true) :
    boundNames ("import \x7b " ++ name ++ " \x7d").toList = [name] := by
  let w : Token := ⟨.word, "", "import", 0⟩
  let us : List Token := [⟨.opener .brace, " ", "\x7b", 0⟩, ⟨.word, " ", name, 0⟩, ⟨.closer .brace, " ", "\x7d", 0⟩]
  have hspelled : ("import \x7b " ++ name ++ " \x7d").toList = spelled (w :: us) := by
    simp [w, us]
  have hends : ∀ rest, EndsName (' ' :: rest) := endsName_cons (by decide)
  have hcut : AreCut (w :: us) [] := by
    refine ⟨isCutBefore_word (by decide +kernel) 0 (by simp) (hends _), isCutBefore_brace rfl (Or.inl ⟨rfl, rfl⟩) 0 _,
      isCutBefore_word hname 0 isBlank_of_mem_space (hends _), isCutBefore_brace rfl (Or.inr ⟨rfl, rfl⟩) 0 _, trivial⟩
  have hlisted : listedNames none [name, "\x7d"] = [name] := by
    simp [listedNames, ne_comma_of_isIdentifier hname, ne_brace_of_isIdentifier hname]
  have hnames : clauseNames (withoutModifier (significantTexts us)) = [name] := by
    simpa [us, significantTexts, withoutModifier, clauseNames, groupNames] using hlisted
  rw [hspelled, boundNames_spelled hcut rfl rfl, hnames, List.filter_cons_of_pos hname, List.filter_nil]

end

end TypeScript

/--
**What accessor names are let through.** Settings that are valid otherwise are accepted exactly if the name of the
accessor is an identifier of ASCII characters or a reserved word, and refused with the name in the message if it is
neither. The calls that are written for a name that is accepted begin, as they are read anywhere in code, with this name
as a word and an opening parenthesis, and an import statement that lists it binds it.
-/
theorem validate_account (s : Settings) (hrest : s.HasValidRest) :
    let name := s.migration.accessorFunction
    (s.validate = .ok () ↔ IsAsciiIdentifier name ∨ name ∈ reservedWords) ∧
    (¬ (IsAsciiIdentifier name ∨ name ∈ reservedWords) ↔
      s.validate = .error (misconfigured ("Accessor function '" ++ name ++ "' is not a valid identifier"))) ∧
    (s.validate = .ok () →
      (∀ className q text, Accessor.call name className q = .ok text →
        ∀ markup (state : TypeScript.LexState), state.InCode → ∀ offset rest,
          ∃ us, (TypeScript.lexFrom markup state offset (text.toList ++ rest)).map TypeScript.Token.lexeme =
            (.word, name) :: (.opener .paren, "(") :: us) ∧
      TypeScript.boundNames ("import \x7b " ++ name ++ " \x7d").toList = [name]) := by
  intro name
  have hvalidate : s.validate = if isIdentifier name then .ok ()
      else .error (misconfigured ("Accessor function '" ++ name ++ "' is not a valid identifier")) :=
    validate_of_hasValidRest hrest
  rw [← isAsciiName_iff, ← isIdentifier_iff]
  cases hname : isIdentifier name with
  | false =>
    rw [hname] at hvalidate
    simp [hvalidate]
  | true =>
    rw [hname] at hvalidate
    have hword := isIdentifier_of_ascii hname
    refine ⟨iff_of_true hvalidate rfl, iff_of_false (by simp) (by simp [hvalidate]), fun _ => ⟨?_, ?_⟩⟩
    · exact fun className q text hcall markup state hs offset rest =>
        TypeScript.lexFrom_call hword markup hs hcall offset rest
    · exact TypeScript.boundNames_import hword

/-- An underscore in front, a dollar sign and a digit behind it. -/
theorem validate_account_dollarName :
    let s : Settings := { migration := { accessorFunction := "_inject$2" } }
    s.HasValidRest ∧ IsAsciiIdentifier "_inject$2" ∧ s.validate = .ok () ∧
      Accessor.call "_inject$2" "A" ⟨"b", .identifier, some "B", false, false, none, [], ⟨0, 4⟩⟩ = .ok "_inject$2(B)" ∧
      (∃ us, (TypeScript.lexFrom false .start 0 "_inject$2(B)".toList).map TypeScript.Token.lexeme =
        (.word, "_inject$2") :: (.opener .paren, "(") :: us) ∧
      TypeScript.boundNames "import { _inject$2 }".toList = ["_inject$2"] := by
  intro s
  have hrest : s.HasValidRest := ⟨by decide, ⟨'@', by decide, by decide⟩, by decide, ⟨.info, by decide +kernel⟩⟩
  have hname : IsAsciiIdentifier "_inject$2" := ⟨isIdentifier_iff.mp (by decide +kernel), by decide⟩
  have hcall : Accessor.call "_inject$2" "A" ⟨"b", .identifier, some "B", false, false, none, [], ⟨0, 4⟩⟩ =
      .ok "_inject$2(B)" := by decide +kernel
  have hcode : TypeScript.LexState.start.InCode := ⟨by decide, by decide, by decide⟩
  obtain ⟨haccepted, -, hwritten⟩ := validate_account s hrest
  have hvalidate := haccepted.mpr (Or.inl hname)
  obtain ⟨hcalls, hbinds⟩ := hwritten hvalidate
  refine ⟨hrest, hname, hvalidate, hcall, ?_, hbinds⟩
  simpa using hcalls "A" _ _ hcall false .start hcode 0 []

/-- A reserved word is accepted, with which no call can begin. -/
theorem reservedWord_accepted :
    let s : Settings := { migration := { accessorFunction := "class" } }
    s.HasValidRest ∧ s.validate = .ok () ∧ ¬ IsAsciiIdentifier s.migration.accessorFunction := by
  intro s
  have hrest : s.HasValidRest := ⟨by decide, ⟨'@', by decide, by decide⟩, by decide, ⟨.info, by decide +kernel⟩⟩
  have hvalidate : s.validate = .ok () := by decide +kernel
  exact ⟨hrest, hvalidate, fun h => h.2 (by decide)⟩

end FieldInjection
