import FieldInjection.TypeScript.Reader.Lexer

/-!
# Where names end

Where a name ends shows by the character behind it (`wordLength_append`): it ends where it did when something else
follows with which no name goes on.
-/

namespace FieldInjection.TypeScript

variable {c : Char} {cs xs rest rest' : List Char}

theorem commentLength?_of_ne_slash (hc : c ≠ '/') : commentLength? (c :: cs) = none := by
  unfold commentLength?
  split
  · rename_i h
    exact absurd (List.cons.inj h).1 hc
  · rename_i h
    exact absurd (List.cons.inj h).1 hc
  · rfl

theorem wordLength_part (hc : isWordPart c = true) (cs : List Char) : wordLength (c :: cs) = 1 + wordLength cs := by
  have hne : c ≠ '\\' := by
    rintro rfl
    exact absurd hc (by decide)
  rw [wordLength, if_pos hc]
  · exact fun _ h _ => hne h
  · exact hne

theorem wordLength_backslash (h : ∀ tail, cs ≠ 'u' :: '{' :: tail) : wordLength ('\\' :: cs) = 1 + wordLength cs := by
  rw [wordLength]
  exact h

/-- An escape in braces ends with the first closing brace. -/
theorem wordLength_braces {front : List Char} (hfront : '}' ∉ front) (back : List Char) :
    wordLength ('\\' :: 'u' :: '{' :: (front ++ '}' :: back)) = front.length + 4 + wordLength back := by
  have hdigits : (front ++ '}' :: back).takeWhile (· ≠ '}') = front := by
    rw [List.takeWhile_append_of_pos, List.takeWhile_cons_of_neg (by simp), List.append_nil]
    rintro d hd
    exact decide_eq_true (ne_of_mem_of_not_mem hd hfront)
  rw [wordLength, hdigits, List.append_cons, List.drop_left' (by simp)]

theorem wordLength_eq_zero_iff : wordLength cs = 0 ↔ ∀ d, cs.head? = some d → isWordPart d = false ∧ d ≠ '\\' := by
  fun_cases wordLength cs with
  | case1 => simp
  | case2 cs =>
    simp
  | case3 cs => simp
  | case4 c cs h1 h2 hc => simp [hc]
  | case5 c cs h1 h2 hc =>
    have hbackslash : c ≠ '\\' := h2
    simp [hc, hbackslash]

/-- Characters of names in front of a text lengthen the name in it. -/
theorem wordLength_append_of_parts (hcs : ∀ d ∈ cs, isWordPart d = true) (rest : List Char) :
    wordLength (cs ++ rest) = cs.length + wordLength rest := by
  induction cs with
  | nil => exact (Nat.zero_add _).symm
  | cons c cs ih =>
    rw [List.cons_append, wordLength_part (hcs c List.mem_cons_self), ih fun d hd => hcs d (List.mem_cons_of_mem _ hd),
      List.length_cons]
    omega

/-- Some characters that are a whole name before a text begin with a character of names, with a backslash alone, or with
an escape in braces. -/
theorem wordLength_cases (h : wordLength (c :: cs ++ rest) = (c :: cs).length) :
    (isWordPart c = true ∧ wordLength (cs ++ rest) = cs.length) ∨
    (c = '\\' ∧ (∀ tail, cs ++ rest ≠ 'u' :: '{' :: tail) ∧ wordLength (cs ++ rest) = cs.length) ∨
    (c = '\\' ∧ ∃ front back, cs = 'u' :: '{' :: (front ++ '}' :: back) ∧ '}' ∉ front ∧
      wordLength (back ++ rest) = back.length) := by
  rw [List.cons_append, List.length_cons] at h
  by_cases hc : isWordPart c = true
  · rw [wordLength_part hc] at h
    exact Or.inl ⟨hc, by omega⟩
  obtain rfl : c = '\\' := by
    refine Classical.byContradiction fun hne => ?_
    have hzero : wordLength (c :: (cs ++ rest)) = 0 :=
      wordLength_eq_zero_iff.mpr fun d hd => Option.some.inj hd ▸ ⟨Bool.eq_false_iff.mpr hc, hne⟩
    omega
  by_cases hescape : ∀ tail, cs ++ rest ≠ 'u' :: '{' :: tail
  · rw [wordLength_backslash hescape] at h
    exact Or.inr (Or.inl ⟨rfl, hescape, by omega⟩)
  · simp only [Classical.not_forall, Classical.not_not] at hescape
    obtain ⟨tail, htail⟩ := hescape
    have hlength : (tail.takeWhile (· ≠ '}')).length + 3 ≤ cs.length := by
      rw [htail, wordLength] at h
      omega
    obtain ⟨ds, rfl⟩ : ∃ ds, cs = 'u' :: '{' :: ds := by
      rcases cs with _ | ⟨a, _ | ⟨b, ds⟩⟩
      · exact absurd hlength (by simp)
      · exact absurd hlength (by simp)
      · obtain ⟨rfl, hb⟩ := List.cons.inj htail
        obtain ⟨rfl, -⟩ := List.cons.inj hb
        exact ⟨ds, rfl⟩
    have hds : ds ++ rest = tail := by simpa using htail
    -- an escape without an end would be longer than the name
    have hmem : '}' ∈ ds := by
      refine Classical.byContradiction fun hno => ?_
      rw [← hds, List.takeWhile_append_of_pos fun d hd => decide_eq_true (ne_of_mem_of_not_mem hd hno), List.length_append,
        List.length_cons, List.length_cons] at hlength
      omega
    obtain ⟨front, back, rfl, hfront⟩ := List.eq_append_cons_of_mem hmem
    refine Or.inr (Or.inr ⟨rfl, front, back, rfl, hfront, ?_⟩)
    simp only [List.cons_append, List.append_assoc, wordLength_braces hfront, List.length_cons, List.length_append] at h
    omega

/-- No escape in braces arises where a name ends. -/
theorem not_escape_append (h : ∀ tail, xs ++ rest ≠ 'u' :: '{' :: tail) (hword : wordLength (xs ++ rest) = xs.length)
    (hrest : rest'.head? = rest.head? ∨ ∀ d, rest'.head? = some d → isWordPart d = false ∧ d ≠ '\\' ∧ d ≠ '{') :
    ∀ tail, xs ++ rest' ≠ 'u' :: '{' :: tail := by
  intro tail htail
  rcases xs with _ | ⟨c, _ | ⟨d, xs⟩⟩
  · have hu : rest'.head? = some 'u' := congrArg List.head? htail
    rcases hrest with hrest | hrest
    · exact absurd (wordLength_eq_zero_iff.mp hword 'u' (hrest ▸ hu)).1 (by decide)
    · exact absurd (hrest 'u' hu).1 (by decide)
  · obtain ⟨rfl, hbehind⟩ := List.cons.inj htail
    have hbrace : rest'.head? = some '{' := congrArg List.head? hbehind
    rcases hrest with hrest | hrest
    · obtain ⟨tail', rfl⟩ := List.head?_eq_some_iff.mp (hrest.symm.trans hbrace)
      exact h tail' rfl
    · exact absurd rfl (hrest '{' hbrace).2.2
  · obtain ⟨rfl, hbehind⟩ := List.cons.inj htail
    obtain ⟨rfl, -⟩ := List.cons.inj hbehind
    exact h (xs ++ rest) rfl

/-- The end of a name shows by the character behind it, which may as well be any that no name goes on with. -/
theorem wordLength_append (h : wordLength (xs ++ rest) = xs.length)
    (hrest : rest'.head? = rest.head? ∨ ∀ d, rest'.head? = some d → isWordPart d = false ∧ d ≠ '\\' ∧ d ≠ '{') :
    wordLength (xs ++ rest') = xs.length := by
  induction hn : xs.length using Nat.strongRecOn generalizing xs with
  | ind n ih =>
    rcases xs with _ | ⟨c, xs⟩
    · rw [List.nil_append, List.length_nil, wordLength_eq_zero_iff] at h
      rw [List.nil_append, ← hn, List.length_nil, wordLength_eq_zero_iff]
      intro d hd
      rcases hrest with hrest | hrest
      · exact h d (hrest ▸ hd)
      · exact ⟨(hrest d hd).1, (hrest d hd).2.1⟩
    rw [List.length_cons] at hn
    rcases wordLength_cases h with ⟨hc, hxs⟩ | ⟨rfl, hescape, hxs⟩ | ⟨rfl, front, back, rfl, hfront, hback⟩
    · rw [List.cons_append, wordLength_part hc, ih _ (by omega) hxs rfl]
      omega
    · rw [List.cons_append, wordLength_backslash (not_escape_append hescape hxs hrest), ih _ (by omega) hxs rfl]
      omega
    · simp only [List.length_cons, List.length_append] at hn
      simp only [List.cons_append, List.append_assoc, wordLength_braces hfront]
      rw [ih _ (by omega) hback rfl]
      omega

end FieldInjection.TypeScript
