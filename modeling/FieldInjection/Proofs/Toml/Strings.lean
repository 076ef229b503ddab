import FieldInjection.Toml.Quoting
import FieldInjection.Toml.Text
import Mathlib.Data.List.Basic

/-!
# Strings that are written are read back

Every form carries some strings (`Form.Carries`), and the one a string is written in carries it (`carries_formOf`). What
a form carries is read back from it, whatever stands behind it but a mark (`readText?_writeText`). The long forms go by
one invariant: behind at most two marks that are not read yet, the reader has what the writer counted as the run.
-/

namespace FieldInjection.Toml

/-- What a form says as it is written. -/
def Form.Carries (cs : List Char) : Form → Prop
  | .basic => '\n' ∉ cs
  | .literal => (∀ c ∈ cs, isForbidden c = false) ∧ '\'' ∉ cs
  | .longBasic => True
  | .longLiteral => (∀ c ∈ cs, needsEscape c = false) ∧ longestRun '\'' cs ≤ 2

/-- No mark that would belong to a string before it. -/
def IsBehindText (rest : List Char) : Prop := rest.head? ≠ some '"' ∧ rest.head? ≠ some '\''

section

variable {c mark : Char} {cs rest more : List Char} {steps run : Nat}

/-! ## Escapes -/

theorem not_forbidden (h : needsEscape c = false) (hbreak : c ≠ '\n') : isForbidden c = false := by
  simp only [needsEscape, isForbidden, Bool.or_eq_false_iff, Bool.and_eq_false_iff, decide_eq_false_iff_not,
    bne_eq_false_iff_eq] at h ⊢
  obtain ⟨(h | rfl) | rfl, hdelete⟩ := h
  · exact ⟨Or.inl h, hdelete⟩
  · exact ⟨Or.inr rfl, hdelete⟩
  · exact absurd rfl hbreak

theorem ne_return (h : needsEscape c = false) : c ≠ '\r' := by
  rintro rfl
  exact absurd h (by decide)

/-- A long form may hold all that needs no escape, line breaks too. -/
theorem not_forbidden_long (h : needsEscape c = false) : (isForbidden c && c != '\n') = false := by
  by_cases hbreak : c = '\n'
  · simp [hbreak]
  · simp [not_forbidden h hbreak]

theorem hexValue?_hexDigit : ∀ n < 16, hexValue? (hexDigit n) = some n := by decide

theorem charOf?_toNat (c : Char) : charOf? c.toNat = some c := by
  have hvalid : c.toNat.isValidChar := c.valid
  rw [charOf?, dif_pos hvalid]
  exact congrArg some (Char.ext rfl)

/-- A character is read back from its escape, or it stands for itself. -/
theorem escape_spec (c : Char) :
    (∃ letter more, escape c = '\\' :: letter :: more ∧ letter ∉ [' ', '\t', '\n', '\r'] ∧
      ∀ rest, readEscape letter (more ++ rest) = some (c, rest)) ∨
    (escape c = [c] ∧ c ≠ '"' ∧ c ≠ '\\' ∧ needsEscape c = false) := by
  unfold escape
  split
  · exact Or.inl ⟨'b', [], rfl, by decide, fun rest => rfl⟩
  · exact Or.inl ⟨'t', [], rfl, by decide, fun rest => rfl⟩
  · exact Or.inl ⟨'f', [], rfl, by decide, fun rest => rfl⟩
  · exact Or.inl ⟨'r', [], rfl, by decide, fun rest => rfl⟩
  · exact Or.inl ⟨'"', [], rfl, by decide, fun rest => rfl⟩
  · exact Or.inl ⟨'\\', [], rfl, by decide, fun rest => rfl⟩
  · rename_i hquote hslash
    split
    · rename_i hcontrol
      -- the character is below 128, so two digits are enough
      have hlt : c.toNat < 128 := by
        simp only [needsEscape, Bool.or_eq_true, Bool.and_eq_true, decide_eq_true_eq] at hcontrol
        omega
      have hhigh := hexValue?_hexDigit (c.toNat / 16) (by omega)
      have hlow := hexValue?_hexDigit (c.toNat % 16) (by omega)
      have hzero : hexValue? '0' = some 0 := by decide
      refine Or.inl ⟨'u', _, rfl, by decide, fun rest => ?_⟩
      have hhex : readHex 0 4 (['0', '0', hexDigit (c.toNat / 16), hexDigit (c.toNat % 16)] ++ rest) =
          some (c.toNat, rest) := by
        simp only [List.cons_append, List.nil_append, readHex, hzero, hhigh, hlow]
        congr 2
        omega
      show ((readHex 0 4 _).bind fun r => (charOf? r.1).bind fun c => some (c, r.2)) = _
      rw [hhex, Option.bind_some, charOf?_toNat, Option.bind_some]
    · rename_i hplain
      exact Or.inr ⟨rfl, hquote, hslash, by simpa using hplain⟩

/-! ## Between quotes -/

theorem length_escape_pos (c : Char) : 0 < (escape c).length := by
  rcases escape_spec c with ⟨letter, more, h, -⟩ | ⟨h, -⟩ <;> simp [h]

theorem length_le_flatMap_escape (cs : List Char) : cs.length ≤ (cs.flatMap escape).length := by
  induction cs with
  | nil => exact Nat.le_refl _
  | cons c cs ih =>
    have hpos := length_escape_pos c
    rw [List.flatMap_cons, List.length_append, List.length_cons]
    omega

theorem readBasic_escape (hbreak : c ≠ '\n') (steps : Nat) (more : List Char) :
    readBasic (steps + 1) (escape c ++ more) = prepend c (readBasic steps more) := by
  rcases escape_spec c with ⟨letter, tail, h, -, hread⟩ | ⟨h, hquote, hslash, hplain⟩
  · rw [h, List.cons_append, List.cons_append]
    simp only [readBasic, hread]
  · rw [h, List.singleton_append]
    simp [readBasic, hslash, not_forbidden hplain hbreak]

theorem readBasic_flatMap (steps : Nat) (hbreak : '\n' ∉ cs) (rest : List Char) (hsteps : cs.length < steps) :
    readBasic steps (cs.flatMap escape ++ '"' :: rest) = some (cs, rest) := by
  induction cs generalizing steps with
  | nil =>
    obtain ⟨steps, rfl⟩ := Nat.exists_eq_add_one_of_ne_zero (Nat.ne_of_gt hsteps)
    rfl
  | cons c cs ih =>
    obtain ⟨hc, hcs⟩ := not_or.mp (List.mem_cons.not.mp hbreak)
    obtain ⟨steps, rfl⟩ := Nat.exists_eq_add_one_of_ne_zero (Nat.ne_zero_of_lt hsteps)
    rw [List.flatMap_cons, List.append_assoc, readBasic_escape (Ne.symm hc),
      ih steps hcs (Nat.lt_of_succ_lt_succ hsteps)]
    rfl

/-! ## Between apostrophes -/

theorem readLiteral_append (hplain : ∀ c ∈ cs, isForbidden c = false) (happ : '\'' ∉ cs) (rest : List Char) :
    readLiteral (cs ++ '\'' :: rest) = some (cs, rest) := by
  induction cs with
  | nil => rfl
  | cons c cs ih =>
    obtain ⟨hc, hcs⟩ := not_or.mp (List.mem_cons.not.mp happ)
    have hih := ih (fun c hc => hplain c (List.mem_cons_of_mem _ hc)) hcs
    simp [readLiteral, Ne.symm hc, hplain c List.mem_cons_self, hih, prepend]

/-! ## Runs of marks -/

theorem le_longestRunFrom (mark : Char) (run : Nat) (cs : List Char) : run ≤ longestRunFrom mark run cs := by
  induction cs generalizing run with
  | nil => exact Nat.le_refl _
  | cons c cs ih =>
    unfold longestRunFrom
    split
    · exact Nat.le_trans (Nat.le_succ run) (ih (run + 1))
    · exact Nat.le_max_left _ _

theorem not_mem_of_longestRun (h : longestRun mark cs = 0) : mark ∉ cs := by
  induction cs with
  | nil => exact List.not_mem_nil
  | cons c cs ih =>
    unfold longestRun longestRunFrom at h
    split at h
    · have hle := le_longestRunFrom mark 1 cs
      rw [h] at hle
      exact absurd hle (by decide)
    · rename_i hne
      rw [Nat.max_eq_zero_iff] at h
      exact List.mem_cons.not.mpr (not_or.mpr ⟨fun heq => hne heq.symm, ih h.2⟩)

/-- A string with more characters in front. -/
def prependAll (cs : List Char) (x : Option (List Char × List Char)) : Option (List Char × List Char) :=
  x.map fun r => (cs ++ r.1, r.2)

theorem prependAll_prepend (c : Char) (cs : List Char) (x : Option (List Char × List Char)) :
    prependAll cs (prepend c x) = prependAll (cs ++ [c]) x := by
  cases x with
  | none => rfl
  | some r => simp [prependAll, prepend]

/-! ## Between three quotes -/

theorem readLongBasic_close (hrun : run ≤ 2) (hrest : rest.head? ≠ some '"') (hsteps : 0 < steps) :
    readLongBasic steps (List.replicate run '"' ++ (triple '"' ++ rest)) = some (List.replicate run '"', rest) := by
  obtain ⟨steps, rfl⟩ := Nat.exists_eq_add_one_of_ne_zero (Nat.ne_of_gt hsteps)
  obtain rfl | rfl | rfl : run = 0 ∨ run = 1 ∨ run = 2 := by omega
  · cases rest with
    | nil => rfl
    | cons d rest =>
      have hd : d ≠ '"' := by simpa using hrest
      simp [triple, readLongBasic, hd]
  · cases rest with
    | nil => rfl
    | cons d rest =>
      have hd : d ≠ '"' := by simpa using hrest
      simp [triple, readLongBasic, hd]
  · rfl

/-- Quotes that do not close the string are characters of it. -/
theorem readLongBasic_quotes (hrun : run ≤ 2) (hmore : more.head? ≠ some '"') (steps : Nat) (hne : more ≠ []) :
    readLongBasic (steps + run) (List.replicate run '"' ++ more) =
      prependAll (List.replicate run '"') (readLongBasic steps more) := by
  obtain ⟨d, more, rfl⟩ := List.exists_cons_of_ne_nil hne
  have hd : d ≠ '"' := by simpa using hmore
  obtain rfl | rfl | rfl : run = 0 ∨ run = 1 ∨ run = 2 := by omega
  · simp [prependAll]
  · simp [readLongBasic, hd, isForbidden, prependAll, prepend]
  · simp [readLongBasic, hd, isForbidden, prependAll, prepend, Option.map_map]
    rfl

theorem readLongBasic_escape (c : Char) (steps : Nat) (more : List Char) :
    readLongBasic (steps + 1) (escape c ++ more) = prepend c (readLongBasic steps more) := by
  rcases escape_spec c with ⟨letter, tail, h, hletter, hread⟩ | ⟨h, hquote, hslash, hplain⟩
  · have hcontinues : continuation? (letter :: (tail ++ more)) = none := by
      simp only [List.mem_cons, List.not_mem_nil, or_false, not_or] at hletter
      simp [continuation?, hletter]
    rw [h, List.cons_append, List.cons_append]
    simp only [readLongBasic, hcontinues, hread]
  · rw [h, List.singleton_append]
    simp [readLongBasic, hquote, ne_return hplain, not_forbidden_long hplain]

/-- Some quotes and a character that is escaped if it is a quote too. -/
theorem readLongBasic_quotes_escape (hrun : run ≤ 2) (c : Char) (steps : Nat) (more : List Char) :
    readLongBasic (steps + 1 + run) (List.replicate run '"' ++ (escape c ++ more)) =
      prependAll (List.replicate run '"' ++ [c]) (readLongBasic steps more) := by
  have hhead : (escape c ++ more).head? ≠ some '"' ∧ escape c ++ more ≠ [] := by
    rcases escape_spec c with ⟨letter, tail, h, -⟩ | ⟨h, hquote, -⟩
    · simp [h]
    · simp [h, hquote]
  rw [readLongBasic_quotes hrun hhead.1 _ hhead.2, readLongBasic_escape, prependAll_prepend]

/-- Only every third quote of a run is escaped. -/
theorem escapeLong_cons (run : Nat) (c : Char) (cs : List Char) : escapeLong run (c :: cs) =
    if c = '"' ∧ run ≠ 2 then '"' :: escapeLong (run + 1) cs else escape c ++ escapeLong 0 cs := by
  rw [escapeLong]
  by_cases hquote : c = '"'
  · subst hquote
    by_cases htwo : run = 2
    · rw [if_pos rfl, if_pos htwo, if_neg (by simp [htwo])]
      rfl
    · rw [if_pos rfl, if_neg htwo, if_pos ⟨rfl, htwo⟩]
  · rw [if_neg hquote, if_neg (by simp [hquote])]

/-- The reader has `run` quotes in front of it that the writer has counted. -/
theorem readLongBasic_escapeLong (run steps : Nat) (hrun : run ≤ 2) (hrest : rest.head? ≠ some '"')
    (hsteps : run + cs.length < steps) :
    readLongBasic steps (List.replicate run '"' ++ (escapeLong run cs ++ (triple '"' ++ rest))) =
      some (List.replicate run '"' ++ cs, rest) := by
  induction cs generalizing run steps with
  | nil =>
    rw [escapeLong, List.nil_append, List.append_nil]
    exact readLongBasic_close hrun hrest (by omega)
  | cons c cs ih =>
    rw [List.length_cons] at hsteps
    rw [escapeLong_cons]
    split
    · -- the quote is counted and left for later
      rename_i hcounted
      obtain ⟨rfl, hrun'⟩ := hcounted
      have hih := ih (run + 1) steps (by omega) (by omega)
      rw [List.replicate_succ', List.append_assoc, List.append_assoc] at hih
      exact hih
    · obtain ⟨steps, rfl⟩ : ∃ n, steps = n + 1 + run := ⟨steps - 1 - run, by omega⟩
      have hih := ih 0 steps (by omega) (by omega)
      rw [List.replicate_zero, List.nil_append, List.nil_append] at hih
      rw [List.append_assoc, readLongBasic_quotes_escape hrun, hih]
      simp [prependAll]

theorem length_le_escapeLong (run : Nat) (cs : List Char) : cs.length ≤ (escapeLong run cs).length := by
  induction cs generalizing run with
  | nil => exact Nat.zero_le _
  | cons c cs ih =>
    rw [escapeLong_cons]
    split
    · have hih := ih (run + 1)
      rw [List.length_cons, List.length_cons]
      omega
    · have hih := ih 0
      have hpos := length_escape_pos c
      rw [List.length_cons, List.length_append]
      omega

/-! ## Between three apostrophes -/

theorem readLongLiteral_close (hrun : run ≤ 2) (hrest : rest.head? ≠ some '\'') :
    readLongLiteral (List.replicate run '\'' ++ (triple '\'' ++ rest)) = some (List.replicate run '\'', rest) := by
  obtain rfl | rfl | rfl : run = 0 ∨ run = 1 ∨ run = 2 := by omega
  · cases rest with
    | nil => rfl
    | cons d rest =>
      have hd : d ≠ '\'' := by simpa using hrest
      simp [triple, readLongLiteral, hd]
  · cases rest with
    | nil => rfl
    | cons d rest =>
      have hd : d ≠ '\'' := by simpa using hrest
      simp [triple, readLongLiteral, hd]
  · rfl

/-- Apostrophes that do not close the string, and a character behind them. -/
theorem readLongLiteral_marks (hrun : run ≤ 2) (hmark : c ≠ '\'') (hplain : needsEscape c = false) (more : List Char) :
    readLongLiteral (List.replicate run '\'' ++ c :: more) =
      prependAll (List.replicate run '\'' ++ [c]) (readLongLiteral more) := by
  have hread : readLongLiteral (c :: more) = prepend c (readLongLiteral more) := by
    simp [readLongLiteral, hmark, ne_return hplain, not_forbidden_long hplain]
  rw [← prependAll_prepend, ← hread]
  obtain rfl | rfl | rfl : run = 0 ∨ run = 1 ∨ run = 2 := by omega
  · simp [prependAll]
  · simp [readLongLiteral.eq_def ('\'' :: c :: more), hmark, isForbidden, prependAll, prepend]
  · simp [readLongLiteral.eq_def ('\'' :: '\'' :: c :: more), readLongLiteral.eq_def ('\'' :: c :: more), hmark,
      isForbidden, prependAll, prepend, Option.map_map]
    rfl

/-- The reader has `run` apostrophes in front of it. -/
theorem readLongLiteral_append (run : Nat) (hplain : ∀ c ∈ cs, needsEscape c = false)
    (hrun : longestRunFrom '\'' run cs ≤ 2) (hrest : rest.head? ≠ some '\'') :
    readLongLiteral (List.replicate run '\'' ++ (cs ++ (triple '\'' ++ rest))) =
      some (List.replicate run '\'' ++ cs, rest) := by
  induction cs generalizing run with
  | nil =>
    rw [List.nil_append, List.append_nil]
    exact readLongLiteral_close hrun hrest
  | cons c cs ih =>
    have hle := Nat.le_trans (le_longestRunFrom '\'' run (c :: cs)) hrun
    have hplain' : ∀ c ∈ cs, needsEscape c = false := fun c hc => hplain c (List.mem_cons_of_mem _ hc)
    unfold longestRunFrom at hrun
    split at hrun
    · rename_i hmark
      subst hmark
      have hih := ih (run + 1) hplain' hrun
      rw [List.replicate_succ', List.append_assoc, List.append_assoc] at hih
      exact hih
    · rename_i hmark
      have hih := ih 0 hplain' (Nat.le_trans (Nat.le_max_right _ _) hrun)
      rw [List.replicate_zero, List.nil_append, List.nil_append] at hih
      rw [List.cons_append, readLongLiteral_marks hle hmark (hplain c List.mem_cons_self), hih]
      simp [prependAll]

/-! ## All forms -/

/-- The form in which a string is written carries it. -/
theorem carries_formOf (cs : List Char) : (formOf cs).Carries cs := by
  have hcontrol : (!cs.any needsEscape) = true → ∀ c ∈ cs, needsEscape c = false := by
    intro h c hc
    by_contra hne
    rw [Bool.not_eq_false] at hne
    simp [List.any_eq_true.mpr ⟨c, hc, hne⟩] at h
  have hbreak : (!cs.contains '\n') = true → '\n' ∉ cs := by simp
  unfold formOf
  dsimp only
  split
  · rename_i h
    simp only [Bool.and_eq_true] at h
    exact hbreak h.1.2
  split
  · rename_i h
    simp only [Bool.and_eq_true, decide_eq_true_eq] at h
    obtain ⟨⟨hnone, hfeed⟩, hrun⟩ := h
    refine ⟨fun c hc => not_forbidden (hcontrol hnone c hc) ?_, not_mem_of_longestRun hrun⟩
    rintro rfl
    exact hbreak hfeed hc
  split
  · exact trivial
  split
  · rename_i h
    simp only [Bool.and_eq_true, decide_eq_true_eq] at h
    exact ⟨hcontrol h.1, h.2⟩
  split
  · exact trivial
  · rename_i hfeed
    show '\n' ∉ cs
    simpa using hfeed

theorem skipBreak_of_head? (h : cs.head? ≠ some '\n') (h' : cs.head? ≠ some '\r') : skipBreak cs = cs := by
  unfold skipBreak
  split
  · exact absurd rfl h
  · exact absurd rfl h'
  · rfl

/-- The line break behind the opening marks is there to be skipped. -/
theorem skipBreak_opening (hhead : '\n' ∉ cs → more.head? ≠ some '\n' ∧ more.head? ≠ some '\r') :
    skipBreak (opening cs ++ more) = more := by
  unfold opening
  split
  · rfl
  · rename_i hbreak
    obtain ⟨h, h'⟩ := hhead (by simpa using hbreak)
    exact skipBreak_of_head? h h'

theorem head?_escapeLong (hbreak : '\n' ∉ cs) (more : List Char) :
    (escapeLong 0 cs ++ (triple '"' ++ more)).head? ≠ some '\n' ∧
      (escapeLong 0 cs ++ (triple '"' ++ more)).head? ≠ some '\r' := by
  cases cs with
  | nil => exact ⟨(fun h => by cases h), fun h => by cases h⟩
  | cons c cs =>
    have hc : c ≠ '\n' := fun heq => hbreak (heq ▸ List.mem_cons_self)
    rw [escapeLong_cons]
    split
    · simp
    · rcases escape_spec c with ⟨letter, tail, h, -⟩ | ⟨h, -, -, hplain⟩
      · simp [h]
      · simp [h, hc, ne_return hplain]

theorem readText?_basic (h : ∀ more, cs ≠ '"' :: '"' :: more) : readText? ('"' :: cs) =
    some ((readBasic (cs.length + 1) cs).map fun r => (String.ofList r.1, r.2)) := by
  unfold readText?
  split
  · rename_i rest heq
    exact absurd (List.cons.inj heq).2 (h rest)
  · rename_i heq
    cases heq
  · rename_i heq
    cases heq
    rfl
  · rename_i heq
    cases heq
  · rename_i hother _
    exact absurd rfl (hother cs)

theorem readText?_literal (h : cs.head? ≠ some '\'') : readText? ('\'' :: cs) =
    some ((readLiteral cs).map fun r => (String.ofList r.1, r.2)) := by
  cases cs with
  | nil => rfl
  | cons c cs =>
    have hc : c ≠ '\'' := by simpa using h
    simp [readText?, hc]

/-- No escape begins with the mark, so a short string does not look like the beginning of a long one. -/
theorem flatMap_escape_ne_marks (hrest : rest.head? ≠ some '"') (cs more : List Char) :
    cs.flatMap escape ++ '"' :: rest ≠ '"' :: '"' :: more := by
  intro heq
  cases cs with
  | nil =>
    obtain rfl : rest = '"' :: more := (List.cons.inj heq).2
    exact hrest rfl
  | cons c cs =>
    rw [List.flatMap_cons, List.append_assoc] at heq
    rcases escape_spec c with ⟨letter, tail, h, -⟩ | ⟨h, hquote, -⟩
    · rw [h] at heq
      cases heq
    · rw [h] at heq
      exact hquote (List.cons.inj heq).1

theorem readText?_writeBasic (hform : Form.basic.Carries cs) (hrest : IsBehindText rest) :
    readText? (writeAs cs .basic ++ rest) = some (some (String.ofList cs, rest)) := by
  have hlength := length_le_flatMap_escape cs
  have hread := readBasic_flatMap ((cs.flatMap escape ++ '"' :: rest).length + 1) hform rest
    (by rw [List.length_append]; omega)
  have hwritten : writeAs cs .basic ++ rest = '"' :: (cs.flatMap escape ++ '"' :: rest) := by simp [writeAs]
  rw [hwritten, readText?_basic (flatMap_escape_ne_marks hrest.1 cs), hread]
  rfl

theorem readText?_writeLiteral (hform : Form.literal.Carries cs) (hne : cs ≠ []) (rest : List Char) :
    readText? (writeAs cs .literal ++ rest) = some (some (String.ofList cs, rest)) := by
  obtain ⟨c, cs, rfl⟩ := List.exists_cons_of_ne_nil hne
  have hc : c ≠ '\'' := fun heq => hform.2 (heq ▸ List.mem_cons_self)
  have hwritten : writeAs (c :: cs) .literal ++ rest = '\'' :: (c :: cs ++ '\'' :: rest) := by simp [writeAs]
  rw [hwritten, readText?_literal (by simpa using hc), readLiteral_append hform.1 hform.2]
  rfl

theorem readText?_writeLongBasic (cs : List Char) (hrest : IsBehindText rest) :
    readText? (writeAs cs .longBasic ++ rest) = some (some (String.ofList cs, rest)) := by
  have hlength := length_le_escapeLong 0 cs
  have hskip : skipBreak (opening cs ++ (escapeLong 0 cs ++ (triple '"' ++ rest))) =
      escapeLong 0 cs ++ (triple '"' ++ rest) := skipBreak_opening fun hbreak => head?_escapeLong hbreak rest
  have hsteps : 0 + cs.length < (opening cs ++ (escapeLong 0 cs ++ (triple '"' ++ rest))).length + 1 := by
    simp only [List.length_append]
    omega
  have hread := readLongBasic_escapeLong 0 _ (Nat.zero_le 2) hrest.1 hsteps
  rw [List.replicate_zero, List.nil_append, List.nil_append] at hread
  have hwritten : writeAs cs .longBasic ++ rest =
      '"' :: '"' :: '"' :: (opening cs ++ (escapeLong 0 cs ++ (triple '"' ++ rest))) := by
    simp [writeAs, triple]
  rw [hwritten, readText?]
  simp only [hskip, hread]
  rfl

theorem readText?_writeLongLiteral (hform : Form.longLiteral.Carries cs) (hrest : IsBehindText rest) :
    readText? (writeAs cs .longLiteral ++ rest) = some (some (String.ofList cs, rest)) := by
  -- a break that is skipped behind the marks is the one the writer put there, never one of the string
  have hhead : '\n' ∉ cs → (cs ++ (triple '\'' ++ rest)).head? ≠ some '\n' ∧
      (cs ++ (triple '\'' ++ rest)).head? ≠ some '\r' := by
    intro hbreak
    cases cs with
    | nil => exact ⟨(fun h => by cases h), fun h => by cases h⟩
    | cons c cs =>
      refine ⟨?_, ?_⟩ <;> rw [List.cons_append, List.head?_cons] <;> intro heq <;>
        obtain rfl := Option.some.inj heq
      · exact hbreak List.mem_cons_self
      · exact ne_return (hform.1 _ List.mem_cons_self) rfl
  have hread := readLongLiteral_append 0 hform.1 hform.2 hrest.2
  rw [List.replicate_zero, List.nil_append, List.nil_append] at hread
  have hwritten : writeAs cs .longLiteral ++ rest =
      '\'' :: '\'' :: '\'' :: (opening cs ++ (cs ++ (triple '\'' ++ rest))) := by
    simp [writeAs, triple]
  rw [hwritten, readText?]
  simp only [skipBreak_opening hhead, hread]
  rfl

theorem readText?_writeAs {form : Form} (hform : form.Carries cs) (hne : cs = [] → form = .basic)
    (hrest : IsBehindText rest) : readText? (writeAs cs form ++ rest) = some (some (String.ofList cs, rest)) := by
  cases form with
  | basic => exact readText?_writeBasic hform hrest
  | literal => exact readText?_writeLiteral hform (fun h => by cases hne h) rest
  | longBasic => exact readText?_writeLongBasic cs hrest
  | longLiteral => exact readText?_writeLongLiteral hform hrest

/-- **A string that is written is read back**, whatever characters it has, and what stands behind it is left. -/
theorem readText?_writeText (s : String) (hrest : IsBehindText rest) :
    readText? (writeText s ++ rest) = some (some (s, rest)) := by
  have hempty : s.toList = [] → formOf s.toList = .basic := by
    intro h
    rw [h]
    rfl
  rw [writeText, readText?_writeAs (carries_formOf _) hempty hrest, String.ofList_toList]

end

end FieldInjection.Toml
