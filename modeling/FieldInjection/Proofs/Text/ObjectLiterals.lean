import Mathlib.Data.List.Basic
import FieldInjection.ObjectLiteral
import FieldInjection.Proofs.Text.Identifiers

/-!
# Reading object literals

An object literal is read by the grammar of the language: it is cut into signs, names and strings with their escapes,
and these are read as entries between braces with commas between them (`readObjectLiteral?`). A string ends on the
line on which it begins, unless a backslash stands before the line break, and only one entry may have the key
`__proto__`.

What `renderObjectLiteral` writes for booleans and strings is read back exactly as it was, unless a string holds a line
break or two keys are `__proto__`; then it is no literal at all (`readObjectLiteral?_render`).
-/

namespace FieldInjection

/-! ## The grammar -/

/-- Blank space between the tokens of a literal: white space and ends of lines. -/
def isLiteralSpace (c : Char) : Bool :=
  c = ' ' || ('\t' ≤ c && c ≤ '\r') || c = '\u00a0' || c = '\u1680' || ('\u2000' ≤ c && c ≤ '\u200a') ||
    c = '\u2028' || c = '\u2029' || c = '\u202f' || c = '\u205f' || c = '\u3000' || c = '\ufeff'

/-- A character that ends a line inside of a string. The line and paragraph separators do not. -/
def breaksString (c : Char) : Bool := c = '\n' || c = '\r'

def isLiteralSign (c : Char) : Bool := c = '\x7b' || c = '\x7d' || c = ',' || c = ':'

/-- The value of a hexadecimal digit. -/
def hexDigit? (c : Char) : Option Nat :=
  if c.isDigit then some (c.toNat - '0'.toNat)
  else if 'a' ≤ c && c ≤ 'f' then some (c.toNat - 'a'.toNat + 10)
  else if 'A' ≤ c && c ≤ 'F' then some (c.toNat - 'A'.toNat + 10)
  else none

/-- The character with a hexadecimal number. Halves of surrogate pairs are no characters. -/
def charOfHex? (digits : List Char) : Option Char := do
  let values ← digits.mapM hexDigit?
  let n := values.foldl (fun n value => 16 * n + value) 0
  if digits ≠ [] ∧ n.isValidChar then some (Char.ofNat n) else none

/-- The character that a backslash and a single character stand for. -/
def simpleEscape : Char → Char
  | 'b' => '\x08'
  | 't' => '\t'
  | 'n' => '\n'
  | 'v' => '\x0b'
  | 'f' => '\x0c'
  | 'r' => '\r'
  | c => c

/-- The characters that an escape behind its backslash stands for, and its length. -/
def readEscape? : List Char → Option (List Char × Nat)
  | [] => none
  -- a line that goes on
  | '\r' :: '\n' :: _ => some ([], 2)
  | 'x' :: a :: b :: _ => (charOfHex? [a, b]).map fun c => ([c], 3)
  | 'u' :: '{' :: cs =>
    let digits := cs.takeWhile (· ≠ '}')
    if digits.length < cs.length then (charOfHex? digits).map fun c => ([c], digits.length + 3) else none
  | 'u' :: a :: b :: c :: d :: _ => (charOfHex? [a, b, c, d]).map fun c => ([c], 5)
  | c :: cs =>
    if breaksString c || c = '\u2028' || c = '\u2029' then some ([], 1)
    else if c = '0' ∧ !cs.head?.any Char.isDigit then some (['\x00'], 1)
    else if c.isDigit || c = 'x' || c = 'u' then none
    else some ([simpleEscape c], 1)

/-- A string behind its opening quote, and what stands behind its closing quote. -/
def readQuoted? : List Char → Option (List Char × List Char)
  | [] => none
  | c :: cs =>
    if c = '\'' then some ([], cs)
    else if c = '\\' then
      match readEscape? cs with
      | none => none
      | some (value, n) => (readQuoted? (cs.drop n)).map fun (text, rest) => (value ++ text, rest)
    else if breaksString c then none
    else (readQuoted? cs).map fun (text, rest) => (c :: text, rest)
termination_by cs => cs.length
decreasing_by all_goals (simp only [List.length_cons, List.length_drop]; omega)

theorem readQuoted?_length {cs text rest : List Char} (h : readQuoted? cs = some (text, rest)) :
    rest.length < cs.length := by
  induction cs using readQuoted?.induct generalizing text rest with
  | case1 => simp [readQuoted?] at h
  | case2 cs =>
    rw [readQuoted?, if_pos rfl] at h
    obtain ⟨-, rfl⟩ := Prod.mk.inj (Option.some.inj h)
    exact Nat.lt_succ_self _
  | case3 cs hnone =>
    rw [readQuoted?, if_neg (by decide), if_pos rfl, hnone] at h
    cases h
  | case4 cs value n hsome _ ih =>
    rw [readQuoted?, if_neg (by decide), if_pos rfl, hsome] at h
    obtain ⟨⟨text', rest'⟩, hread, heq⟩ := Option.map_eq_some_iff.mp h
    obtain ⟨-, rfl⟩ := Prod.mk.inj heq
    have := ih hread
    simp only [List.length_drop, List.length_cons] at *
    omega
  | case5 c cs hquote hslash hbreak =>
    rw [readQuoted?, if_neg hquote, if_neg hslash, if_pos hbreak] at h
    cases h
  | case6 c cs hquote hslash hbreak ih =>
    rw [readQuoted?, if_neg hquote, if_neg hslash, if_neg hbreak] at h
    obtain ⟨⟨text', rest'⟩, hread, heq⟩ := Option.map_eq_some_iff.mp h
    obtain ⟨-, rfl⟩ := Prod.mk.inj heq
    exact Nat.lt_succ_of_lt (ih hread)

/-- A token of an object literal. -/
inductive LiteralToken where
  | sign (c : Char)
  | name (text : String)
  | quoted (text : String)
  deriving DecidableEq, Repr

/-- The tokens of a text, if it holds nothing else. -/
def literalTokens? : List Char → Option (List LiteralToken)
  | [] => some []
  | c :: cs =>
    if isLiteralSpace c then literalTokens? cs
    else if isLiteralSign c then (literalTokens? cs).map (.sign c :: ·)
    else if isIdentifierStart c then
      (literalTokens? (cs.dropWhile isIdentifierPart)).map
        (.name (String.ofList (c :: cs.takeWhile isIdentifierPart)) :: ·)
    else if c = '\'' then
      match _h : readQuoted? cs with
      | none => none
      | some (text, rest) => (literalTokens? rest).map (.quoted (String.ofList text) :: ·)
    else none
termination_by cs => cs.length
decreasing_by
  · exact Nat.lt_succ_self _
  · exact Nat.lt_succ_self _
  · exact Nat.lt_succ_of_le (List.dropWhile_sublist _).length_le
  · exact Nat.lt_succ_of_lt (readQuoted?_length _h)

/-- The value that a token is. -/
def LiteralToken.value? : LiteralToken → Option LiteralValue
  | name "true" => some (.boolean true)
  | name "false" => some (.boolean false)
  | quoted text => some (.text text)
  | _ => none

/-- The entries up to the closing brace at the end. A comma may stand behind the last one. -/
def entriesOf? : List LiteralToken → Option (List LiteralEntry)
  | [.sign '}'] => some []
  | .name key :: .sign ':' :: t :: ts =>
    match t.value?, ts with
    | some value, [.sign '}'] => some [⟨key, value⟩]
    | some value, .sign ',' :: ts => (entriesOf? ts).map (⟨key, value⟩ :: ·)
    | _, _ => none
  | _ => none

/-- No two entries set the prototype. -/
def setsPrototypeOnce (entries : List LiteralEntry) : Bool := entries.countP (·.key = "__proto__") ≤ 1

/-- The entries of an object literal with names as keys and booleans and strings as values. -/
def readObjectLiteral? (text : String) : Option (List LiteralEntry) :=
  match literalTokens? text.toList with
  | some (.sign '{' :: ts) => (entriesOf? ts).filter setsPrototypeOnce
  | _ => none

/-- The value is no string, or one without a line break. -/
def LiteralValue.staysOnLine : LiteralValue → Bool
  | .text value => value.toList.all fun c => !breaksString c
  | _ => true

section
variable {c : Char} {cs rest : List Char} {text : String} {e : LiteralEntry} {es : List LiteralEntry}

/-! ## Strings -/

theorem readEscape?_self (h : c = '\\' ∨ c = '\'') : readEscape? (c :: cs) = some ([c], 1) := by
  rcases h with rfl | rfl <;> rfl

/-- An escaped string is read back, unless it goes over the end of a line. -/
theorem readQuoted?_escapeQuoted (s rest : List Char) : readQuoted? (escapeQuoted s ++ '\'' :: rest) =
    if s.all fun c => !breaksString c then some (s, rest) else none := by
  induction s with
  | nil => simp [escapeQuoted, readQuoted?]
  | cons c s ih =>
    rw [escapeQuoted]
    split
    · rename_i hescaped
      have hkeeps : breaksString c = false := by rcases hescaped with rfl | rfl <;> rfl
      rw [List.cons_append, List.cons_append, readQuoted?, if_neg (by decide), if_pos rfl, readEscape?_self hescaped]
      simp only [List.drop_succ_cons, List.drop_zero, ih, List.all_cons, hkeeps]
      split <;> simp [*]
    · rename_i hplain
      obtain ⟨hslash, hquote⟩ := not_or.mp hplain
      rw [List.cons_append, readQuoted?, if_neg hquote, if_neg hslash, ih]
      cases hbreak : breaksString c with
      | true => simp [hbreak]
      | false =>
        simp only [List.all_cons, hbreak, Bool.false_eq_true, if_false]
        split <;> simp [*]

/-! ## Tokens -/

theorem literalTokens?_nil : literalTokens? [] = some [] := by
  rw [literalTokens?.eq_def]

/-- The first character tells what is read. -/
theorem literalTokens?_cons (c : Char) (cs : List Char) : literalTokens? (c :: cs) =
    if isLiteralSpace c then literalTokens? cs
    else if isLiteralSign c then (literalTokens? cs).map (.sign c :: ·)
    else if isIdentifierStart c then
      (literalTokens? (cs.dropWhile isIdentifierPart)).map
        (.name (String.ofList (c :: cs.takeWhile isIdentifierPart)) :: ·)
    else if c = '\'' then
      (readQuoted? cs).bind fun r => (literalTokens? r.2).map (.quoted (String.ofList r.1) :: ·)
    else none := by
  -- the equations that Lean proves by itself take long here
  rw [literalTokens?.eq_def]
  refine if_congr Iff.rfl rfl (if_congr Iff.rfl rfl (if_congr Iff.rfl rfl (if_congr Iff.rfl ?_ rfl)))
  split <;> simp [*]

theorem literalTokens?_space (h : isLiteralSpace c = true) : literalTokens? (c :: cs) = literalTokens? cs := by
  rw [literalTokens?_cons, if_pos h]

theorem literalTokens?_sign (h : isLiteralSign c = true) :
    literalTokens? (c :: cs) = (literalTokens? cs).map (.sign c :: ·) := by
  have hspace : isLiteralSpace c = false := by
    simp only [isLiteralSign, Bool.or_eq_true, decide_eq_true_eq] at h
    rcases h with ((rfl | rfl) | rfl) | rfl <;> decide
  rw [literalTokens?_cons, if_neg (by simp [hspace]), if_pos h]

/-- A name is read up to the first character that cannot be part of it. -/
theorem literalTokens?_name (text : String) {rest : List Char} (h : isIdentifier text = true)
    (hrest : rest.head?.any isIdentifierPart = false) :
    literalTokens? (text.toList ++ rest) = (literalTokens? rest).map (.name text :: ·) := by
  unfold isIdentifier at h
  split at h
  · cases h
  · rename_i c cs htext
    obtain ⟨hstart, hparts⟩ := Bool.and_eq_true_iff.mp h
    have hplain : isLiteralSpace c = false ∧ isLiteralSign c = false :=
      of_isIdentifierPart (P := fun c => isLiteralSpace c = false ∧ isLiteralSign c = false) (by decide)
        (isIdentifierPart_of_isIdentifierStart hstart)
    have hends : rest.takeWhile isIdentifierPart = [] ∧ rest.dropWhile isIdentifierPart = rest := by
      cases rest with
      | nil => exact ⟨rfl, rfl⟩
      | cons d rest =>
        have hd : isIdentifierPart d = false := by simpa using hrest
        exact ⟨List.takeWhile_cons_of_neg (by simp [hd]), List.dropWhile_cons_of_neg (by simp [hd])⟩
    have hparts := List.all_eq_true.mp hparts
    have htake : (cs ++ rest).takeWhile isIdentifierPart = cs := by
      rw [List.takeWhile_append_of_pos hparts, hends.1, List.append_nil]
    have hdrop : (cs ++ rest).dropWhile isIdentifierPart = rest := by
      rw [List.dropWhile_append_of_pos hparts, hends.2]
    rw [htext, List.cons_append, literalTokens?_cons, if_neg (by simp [hplain.1]), if_neg (by simp [hplain.2]), if_pos hstart,
      htake, hdrop, ← htext, String.ofList_toList]

theorem literalTokens?_string (cs : List Char) : literalTokens? ('\'' :: cs) =
    (readQuoted? cs).bind fun r => (literalTokens? r.2).map (.quoted (String.ofList r.1) :: ·) := by
  rw [literalTokens?_cons, if_neg (by decide), if_neg (by decide), if_neg (by decide), if_pos rfl]

/-- The token of a value, and the end of the text if the value goes over the end of a line. -/
theorem literalTokens?_value {v : LiteralValue} (hv : ∀ bits, v ≠ .number bits)
    (hrest : rest.head?.any isIdentifierPart = false) : ∃ t, t.value? = some v ∧
      literalTokens? (v.render.toList ++ rest) = if v.staysOnLine then (literalTokens? rest).map (t :: ·) else none := by
  rcases v with (_ | _) | bits | text
  · exact ⟨.name "false", rfl, literalTokens?_name "false" (by decide) hrest⟩
  · exact ⟨.name "true", rfl, literalTokens?_name "true" (by decide) hrest⟩
  · exact absurd rfl (hv bits)
  · refine ⟨.quoted text, rfl, ?_⟩
    have htext : (LiteralValue.text text).render.toList ++ rest = '\'' :: (escapeQuoted text.toList ++ '\'' :: rest) := by
      simp [LiteralValue.render]
    rw [htext, literalTokens?_string, readQuoted?_escapeQuoted, LiteralValue.staysOnLine]
    split <;> simp

/-- The tokens of an entry. -/
theorem literalTokens?_entry (rest : List Char) (hkey : isIdentifier e.key = true)
    (hvalue : ∀ bits, e.value ≠ .number bits) (hrest : rest.head?.any isIdentifierPart = false) :
    ∃ t, t.value? = some e.value ∧ literalTokens? (e.render.toList ++ rest) =
        if e.value.staysOnLine then (literalTokens? rest).map fun ts => .name e.key :: .sign ':' :: t :: ts else none := by
  obtain ⟨t, ht, htokens⟩ := literalTokens?_value hvalue hrest
  refine ⟨t, ht, ?_⟩
  have htext : e.render.toList ++ rest = e.key.toList ++ ':' :: ' ' :: (e.value.render.toList ++ rest) := by
    simp [LiteralEntry.render]
  have hcolon : isIdentifierPart ':' = false := by decide
  rw [htext, literalTokens?_name e.key hkey (by simpa using hcolon), literalTokens?_sign (by decide),
    literalTokens?_space (by decide), htokens]
  split <;> simp [Function.comp_def]

/-! ## Entries -/

/-- What stands behind an entry of a literal when some others follow. -/
def behindEntry : List LiteralEntry → List Char
  | [] => ['\n', '\x7d']
  | e :: es => ',' :: '\n' :: (e.render.toList ++ behindEntry es)

theorem toList_renderObjectLiteral (e : LiteralEntry) (es : List LiteralEntry) :
    (renderObjectLiteral (e :: es)).toList = '\x7b' :: '\n' :: (e.render.toList ++ behindEntry es) := by
  suffices h : ∀ e, (String.intercalate ",\n" ((e :: es).map LiteralEntry.render)).toList ++ ['\n', '\x7d'] =
      e.render.toList ++ behindEntry es by
    rw [← h e, renderObjectLiteral]
    simp
  intro e
  induction es generalizing e with
  | nil => simp [behindEntry]
  | cons e' es ih => simp [behindEntry, String.intercalate_cons_cons, ← ih e']

theorem entriesOf?_last {t : LiteralToken} (ht : t.value? = some e.value) :
    entriesOf? [.name e.key, .sign ':', t, .sign '}'] = some [e] := by
  simp [entriesOf?, ht]

theorem entriesOf?_cons {t : LiteralToken} (ht : t.value? = some e.value) (ts : List LiteralToken) :
    entriesOf? (.name e.key :: .sign ':' :: t :: .sign ',' :: ts) = (entriesOf? ts).map (e :: ·) := by
  simp [entriesOf?, ht]

/-- Entries are read back, unless one of them goes over the end of a line. -/
theorem entriesOf?_tokens (hkeys : ∀ e' ∈ e :: es, isIdentifier e'.key = true)
    (hvalues : ∀ e' ∈ e :: es, ∀ bits, e'.value ≠ .number bits) :
    (literalTokens? (e.render.toList ++ behindEntry es)).bind entriesOf? =
      if (e :: es).all (·.value.staysOnLine) then some (e :: es) else none := by
  induction es generalizing e with
  | nil =>
    obtain ⟨t, ht, htokens⟩ := literalTokens?_entry (behindEntry []) (hkeys e List.mem_cons_self)
      (hvalues e List.mem_cons_self) rfl
    have hend : literalTokens? (behindEntry []) = some [.sign '}'] := by
      rw [behindEntry, literalTokens?_space (by decide), literalTokens?_sign (by decide), literalTokens?_nil]
      rfl
    rw [htokens, hend]
    cases hline : e.value.staysOnLine <;> simp [hline, entriesOf?_last ht]
  | cons e' es ih =>
    obtain ⟨t, ht, htokens⟩ := literalTokens?_entry (behindEntry (e' :: es)) (hkeys e List.mem_cons_self)
      (hvalues e List.mem_cons_self) rfl
    have hnext := ih (e := e') (fun d hd => hkeys d (List.mem_cons_of_mem e hd))
      fun d hd => hvalues d (List.mem_cons_of_mem e hd)
    rw [htokens, behindEntry, literalTokens?_sign (by decide), literalTokens?_space (by decide)]
    have hbehind : ∀ tokens : Option (List LiteralToken),
        ((tokens.map (LiteralToken.sign ',' :: ·)).map fun ts => .name e.key :: .sign ':' :: t :: ts).bind entriesOf? =
          (tokens.bind entriesOf?).map (e :: ·) := by
      rintro (_ | ts)
      · rfl
      · exact entriesOf?_cons ht ts
    -- a value that does not end on its line is no token, and then nothing behind it is read
    cases hline : e.value.staysOnLine with
    | false => simp [hline]
    | true =>
      have hall : (e :: e' :: es).all (·.value.staysOnLine) = (e' :: es).all (·.value.staysOnLine) := by
        rw [List.all_cons, hline, Bool.true_and]
      rw [if_pos rfl, hbehind, hnext, hall]
      split <;> rfl

end

/-- **Object literals**: whatever entries with identifiers as keys and with booleans and strings as values are
rendered, the text is a literal that is read as these entries in their order, exactly if no string among them holds a
line break and at most one key is `__proto__`. A text that is not read as these entries is not read as any others.
-/
theorem readObjectLiteral?_render (entries : List LiteralEntry) (hkeys : ∀ e ∈ entries, isIdentifier e.key = true)
    (hvalues : ∀ e ∈ entries, ∀ bits, e.value ≠ .number bits) : readObjectLiteral? (renderObjectLiteral entries) =
      if (∀ e ∈ entries, e.value.staysOnLine = true) ∧ entries.countP (·.key = "__proto__") ≤ 1 then some entries
      else none := by
  cases entries with
  | nil => decide +kernel
  | cons e es =>
    have htokens := entriesOf?_tokens hkeys hvalues
    rw [readObjectLiteral?, toList_renderObjectLiteral, literalTokens?_sign (by decide), literalTokens?_space (by decide)]
    have hfilter : ∀ tokens : Option (List LiteralToken),
        (match tokens.map (LiteralToken.sign '\x7b' :: ·) with
          | some (.sign '{' :: ts) => (entriesOf? ts).filter setsPrototypeOnce
          | _ => none) = (tokens.bind entriesOf?).filter setsPrototypeOnce := by
      rintro (_ | ts) <;> rfl
    rw [hfilter, htokens]
    by_cases hlines : ∀ e' ∈ e :: es, e'.value.staysOnLine = true
    · rw [if_pos (List.all_eq_true.mpr hlines), Option.filter_some]
      simp only [setsPrototypeOnce, decide_eq_true_eq]
      exact (if_congr (and_iff_right hlines) rfl rfl).symm
    · rw [if_neg (mt List.all_eq_true.mp hlines), Option.filter_none, if_neg (mt And.left hlines)]

/-- A string with quotes, a backslash at its end and a paragraph separator, and keys that are words of the language. -/
def hardEntries : List LiteralEntry :=
  [⟨"class", .text "it's, \x7b\"\u2029\x7d: \\"⟩, ⟨"$_1", .boolean false⟩, ⟨"class", .text ""⟩]

theorem readObjectLiteral?_render_hardEntries :
    (∀ e ∈ hardEntries, isIdentifier e.key = true) ∧ (∀ e ∈ hardEntries, ∀ bits, e.value ≠ .number bits) ∧
      readObjectLiteral? (renderObjectLiteral hardEntries) = some hardEntries := by
  have hkeys : ∀ e ∈ hardEntries, isIdentifier e.key = true := by decide +kernel
  have hvalues : ∀ e ∈ hardEntries, ∀ bits, e.value ≠ .number bits := by simp [hardEntries]
  refine ⟨hkeys, hvalues, ?_⟩
  rw [readObjectLiteral?_render hardEntries hkeys hvalues, if_pos (by decide +kernel)]

/-- A string with a line break is not rendered as a literal, although there is one for it. -/
theorem lineBreak_not_read :
    readObjectLiteral? (renderObjectLiteral [⟨"token", .text "a\nb"⟩]) = none ∧
      readObjectLiteral? "\x7b\ntoken: 'a\\nb'\n\x7d" = some [⟨"token", .text "a\nb"⟩] := by
  decide +kernel

end FieldInjection
