import FieldInjection.Proofs.Reader.PlainTokens
import FieldInjection.Text.Offset

/-!
# Reading tokens back

A text is spelled by its tokens with the blanks in front of them. The lexer goes over tokens that are cut off before
what stands behind them (`Reads`, `reads_of_isCutBefore`) and reads them where they stand (`lexFrom_of_reads`). Plain
tokens that end before what stands behind them (`AreCut`) are read again from what they spell (`lexFrom_spelled`).
-/

namespace FieldInjection.TypeScript

/-- The token that a step finds. -/
def Step.token (step : Step) (blanks : String) (start : Nat) (c : Char) (cs : List Char) : Token :=
  ⟨step.kind, blanks, String.ofList ((c :: cs).take (step.size - 1 + 1)), start⟩

/-- The text of some tokens, each with the blanks in front of it. -/
def spelled (ts : List Token) : List Char := ts.flatMap fun t => t.blanks.toList ++ t.text.toList

/-- A token without its place in the text. -/
def Token.lexeme (t : Token) : TokenKind × String := (t.kind, t.text)

/-- The token is a plain one that ends before the given text. -/
structure Token.IsCutBefore (t : Token) (rest : List Char) : Prop where
  blanks : ∀ c ∈ t.blanks.toList, isBlank c = true
  text : ∃ c cs, t.text.toList = c :: cs ∧ isBlank c = false ∧
    plainStep? c (cs ++ rest) = some (t.kind, cs.length + 1)

/-- Each of the tokens ends before those behind it, and the last one before the given text. -/
def AreCut : List Token → List Char → Prop
  | [], _ => True
  | t :: ts, rest => t.IsCutBefore (spelled ts ++ rest) ∧ AreCut ts rest

/-- From a state the lexer goes over tokens that spell the beginning of a text, and is in another state before what
follows. -/
inductive Reads (markup : Bool) : LexState → List Token → List Char → LexState → Prop where
  | nil (s : LexState) (rest : List Char) : Reads markup s [] rest s
  | cons {s s' : LexState} {x : Token} {ts : List Token} {rest : List Char} {c : Char} {cs : List Char} {step : Step}
      (blanks : ∀ b ∈ x.blanks.toList, isBlank b = true) (text : x.text.toList = c :: cs) (solid : isBlank c = false)
      (next : nextStep markup s c (cs ++ (spelled ts ++ rest)) = step) (kind : step.kind = x.kind)
      (size : (cs ++ (spelled ts ++ rest)).drop (step.size - 1) = spelled ts ++ rest)
      (behind : Reads markup step.state ts rest s') : Reads markup s (x :: ts) rest s'

/-- The tokens where they stand if the first of them is read from an offset on. -/
def placedFrom (offset : Nat) : List Token → List Token
  | [] => []
  | t :: ts =>
    { t with start := offset + byteLength t.blanks.toList } :: placedFrom (offset + byteLength (spelled [t])) ts

section
variable {markup : Bool} {s s' : LexState} {offset : Nat} {cs rest : List Char} {x : Token} {ts us : List Token}
  {name : String}

theorem utf8ByteSize_ofList (cs : List Char) : (String.ofList cs).utf8ByteSize = byteLength cs := by
  induction cs with
  | nil => rfl
  | cons c cs ih =>
    rw [String.ofList_cons, String.utf8ByteSize_append, ih, byteLength_cons, String.utf8ByteSize_singleton]

theorem Token.lexeme_eq_iff {kind : TokenKind} {text : String} :
    x.lexeme = (kind, text) ↔ x.kind = kind ∧ x.text = text := by
  rw [Token.lexeme, Prod.mk.injEq]

@[simp] theorem spelled_nil : spelled [] = [] := rfl

@[simp] theorem spelled_cons (t : Token) (ts : List Token) :
    spelled (t :: ts) = t.blanks.toList ++ t.text.toList ++ spelled ts := by
  simp [spelled]

@[simp] theorem spelled_append (ts us : List Token) : spelled (ts ++ us) = spelled ts ++ spelled us := by
  simp [spelled]

/-- Ordinary code in which only braces are open. -/
theorem inCode_of_braces (hs : ∀ f ∈ s.frames, ∃ block, f = .brace block) :
    s.InCode ∧ s.frames.head? ≠ some .substitution := by
  have hhead : ∀ f, s.frames.head? = some f → ∃ block, f = .brace block := by
    intro f hf
    exact hs f (List.mem_of_head? hf)
  refine ⟨⟨?_, ?_, ?_⟩, ?_⟩ <;>
  · intro h
    obtain ⟨block, hblock⟩ := hhead _ h
    cases hblock

theorem braces_of_framesBehind {kind : TokenKind} {before after : List Frame} (h : framesBehind kind before after)
    (hbefore : ∀ f ∈ before, ∃ block, f = .brace block) : ∀ f ∈ after, ∃ block, f = .brace block := by
  unfold framesBehind at h
  split at h
  · obtain ⟨block, rfl⟩ := h
    intro f hf
    rcases List.mem_cons.mp hf with rfl | hf
    · exact ⟨block, rfl⟩
    · exact hbefore f hf
  · subst h
    exact fun f hf => hbefore f (List.mem_of_mem_drop hf)
  · subst h
    exact hbefore

theorem lexFrom_of_dropWhile_nil (markup : Bool) (s : LexState) (offset : Nat)
    (h : cs.dropWhile isBlank = []) : lexFrom markup s offset cs = [] := by
  rw [lexFrom]
  split
  · rfl
  · rename_i heq
    rw [h] at heq
    cases heq

theorem lexFrom_of_dropWhile_cons (markup : Bool) (s : LexState) (offset : Nat) {c : Char}
    (h : cs.dropWhile isBlank = c :: rest) :
    lexFrom markup s offset cs =
      (nextStep markup s c rest).token (String.ofList (cs.takeWhile isBlank))
          (offset + byteLength (cs.takeWhile isBlank)) c rest ::
        lexFrom markup (nextStep markup s c rest).state
          (offset + byteLength (cs.takeWhile isBlank) +
            byteLength ((c :: rest).take ((nextStep markup s c rest).size - 1 + 1)))
          (rest.drop ((nextStep markup s c rest).size - 1)) := by
  rw [lexFrom]
  split
  · rename_i heq
    rw [h] at heq
    cases heq
  · rename_i c' rest' heq
    rw [h] at heq
    obtain ⟨rfl, rfl⟩ := List.cons.inj heq
    simp only [Step.token, utf8ByteSize_ofList]

/-- A plain token is read again from its text. -/
theorem lexFrom_of_isCutBefore (markup : Bool) (offset : Nat) (hcut : x.IsCutBefore rest) (hs : s.InCode)
    (hsub : s.frames.head? ≠ some .substitution) :
    ∃ s' offset' start, lexFrom markup s offset (x.blanks.toList ++ x.text.toList ++ rest) =
        ⟨x.kind, x.blanks, x.text, start⟩ :: lexFrom markup s' offset' rest ∧
      framesBehind x.kind s.frames s'.frames := by
  obtain ⟨hblanks, c, cs, htext, hc, hplain⟩ := hcut
  obtain ⟨hkind, hsize, hframes⟩ := nextStep_of_plainStep? markup hs (fun _ => hsub) hplain
  have hdrop : (x.blanks.toList ++ x.text.toList ++ rest).dropWhile isBlank = c :: (cs ++ rest) := by
    rw [htext, List.append_assoc, List.dropWhile_append_of_pos hblanks]
    simp [hc]
  have htake : (x.blanks.toList ++ x.text.toList ++ rest).takeWhile isBlank = x.blanks.toList := by
    rw [htext, List.append_assoc, List.takeWhile_append_of_pos hblanks]
    simp [hc]
  -- the token takes its own characters and leaves the rest
  have hchars : (c :: (cs ++ rest)).take (cs.length + 1 - 1 + 1) = x.text.toList := by
    simp [htext]
  have hlex := lexFrom_of_dropWhile_cons markup s offset hdrop
  rw [htake, Step.token, hkind, hsize, hchars, String.ofList_toList, String.ofList_toList, Nat.add_sub_cancel,
    List.drop_left] at hlex
  exact ⟨_, _, _, hlex, hframes⟩

/-- Plain tokens are read again from their text. -/
theorem lexFrom_spelled (hcut : AreCut ts []) (hs : ∀ f ∈ s.frames, ∃ block, f = .brace block) :
    (lexFrom markup s offset (spelled ts)).map Token.lexeme = ts.map Token.lexeme := by
  induction ts generalizing s offset with
  | nil =>
    rw [spelled_nil, lexFrom_of_dropWhile_nil markup s offset rfl]
  | cons t ts ih =>
    obtain ⟨ht, hts⟩ := hcut
    rw [List.append_nil] at ht
    obtain ⟨hcode, hsub⟩ := inCode_of_braces hs
    obtain ⟨s', offset', start, hlex, hframes⟩ := lexFrom_of_isCutBefore markup offset ht hcode hsub
    rw [spelled_cons, hlex, List.map_cons, List.map_cons, ih hts (braces_of_framesBehind hframes hs)]
    rfl

theorem Reads.append {s'' : LexState} (h : Reads markup s ts (spelled us ++ rest) s') (h' : Reads markup s' us rest s'') :
    Reads markup s (ts ++ us) rest s'' := by
  induction ts generalizing s with
  | nil =>
    cases h
    exact h'
  | cons t ts ih =>
    cases h with
    | cons blanks text solid next kind size behind =>
      have hspelled : spelled (ts ++ us) ++ rest = spelled ts ++ (spelled us ++ rest) := by
        rw [spelled_append, List.append_assoc]
      exact .cons blanks text solid (hspelled ▸ next) kind (hspelled ▸ size) (ih behind)

/-- What a run goes over is read. -/
theorem lexFrom_of_reads (h : Reads markup s ts rest s') (offset : Nat) :
    lexFrom markup s offset (spelled ts ++ rest) =
      placedFrom offset ts ++ lexFrom markup s' (offset + byteLength (spelled ts)) rest := by
  induction h generalizing offset with
  | nil => rfl
  | @cons s s' x ts rest c cs step blanks text solid next kind size behind ih =>
    have hspelled : spelled (x :: ts) ++ rest = x.blanks.toList ++ c :: (cs ++ (spelled ts ++ rest)) := by
      rw [spelled_cons, text]
      simp
    have hdrop : (spelled (x :: ts) ++ rest).dropWhile isBlank = c :: (cs ++ (spelled ts ++ rest)) := by
      rw [hspelled, List.dropWhile_append_of_pos blanks, List.dropWhile_cons_of_neg (by simp [solid])]
    have htake : (spelled (x :: ts) ++ rest).takeWhile isBlank = x.blanks.toList := by
      rw [hspelled, List.takeWhile_append_of_pos blanks, List.takeWhile_cons_of_neg (by simp [solid]), List.append_nil]
    -- the step takes off what the token is spelled by
    have hcs : (cs ++ (spelled ts ++ rest)).take (step.size - 1) = cs := by
      have hsplit := List.take_append_drop (step.size - 1) (cs ++ (spelled ts ++ rest))
      rw [size] at hsplit
      exact List.append_cancel_right hsplit
    have hone : byteLength (spelled [x]) = byteLength x.blanks.toList + byteLength (c :: cs) := by
      rw [← text, ← byteLength_append]
      simp [spelled]
    rw [lexFrom_of_dropWhile_cons markup s offset hdrop, next, size, htake, placedFrom, List.cons_append]
    congr 1
    · show Token.mk step.kind _ (String.ofList (List.take (step.size - 1 + 1) _)) _ = _
      rw [List.take_succ_cons, hcs, kind, ← text, String.ofList_toList, String.ofList_toList]
    · rw [List.take_succ_cons, hcs, Nat.add_assoc, ← hone, ih]
      congr 2
      have hcons : spelled (x :: ts) = spelled [x] ++ spelled ts := spelled_append [x] ts
      rw [hcons, byteLength_append, Nat.add_assoc]

/-- In ordinary code the lexer goes over a plain token that is cut off before what follows. -/
theorem reads_of_isCutBefore (markup : Bool) (hs : s.InCode)
    (hbrace : (∃ b, x.kind = .closer b) → s.frames.head? ≠ some .substitution) (hcut : x.IsCutBefore rest) :
    ∃ s', Reads markup s [x] rest s' ∧ framesBehind x.kind s.frames s'.frames := by
  obtain ⟨hblanks, c, cs, htext, hsolid, hstep⟩ := hcut
  have hcloser : c = '}' → ∃ b, x.kind = .closer b := by
    rintro rfl
    obtain ⟨-, h⟩ | ⟨-, h, -⟩ | ⟨hkind, -, -⟩ | ⟨-, h, -⟩ | ⟨-, h, -⟩ | ⟨-, h, -⟩ := plainStep?_cases hstep
    · cases h
    · cases h
    · exact ⟨_, hkind⟩
    · simp at h
    · simp [show isWordStart '}' = false from rfl] at h
    · exact absurd h (by decide)
  obtain ⟨hkind, hsize, hframes⟩ := nextStep_of_plainStep? markup hs (fun hc => hbrace (hcloser hc)) hstep
  refine ⟨_, .cons hblanks htext hsolid rfl hkind ?_ (.nil _ rest), hframes⟩
  rw [spelled_nil, List.nil_append, hsize, Nat.add_sub_cancel, List.drop_left]

end

end FieldInjection.TypeScript
