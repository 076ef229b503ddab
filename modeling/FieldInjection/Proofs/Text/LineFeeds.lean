import FieldInjection.Proofs.Syntax.Placement
import FieldInjection.Text.Line

/-!
# Line feeds and carriage returns

In a text whose lines end with a carriage return and a line feed, every line feed follows a carriage return
(`feedsFollowReturns`). It stays so when edits are woven into the text that insert only texts of the kind, if nothing is
inserted between the two signs of a line break and no removal ends there (`feedsFollowReturns_weave`).
-/

namespace FieldInjection

/-- Every line feed of a text follows a carriage return. `behindReturn` tells whether one stands before the text. -/
def feedsFollowReturns (behindReturn : Bool) : List Char → Bool
  | [] => true
  | c :: cs => (c ≠ '\n' || behindReturn) && feedsFollowReturns (c = '\r') cs

/-- Whether an offset stands between the two signs of a line break, a carriage return and a line feed. -/
def splitsBreak (text : List Char) (offset : Nat) : Bool :=
  (takeBytes text offset).getLast? == some '\r' && (dropBytes text offset).head? == some '\n'

/-- A property of texts that all texts of a single line have, and with two texts both of them together. -/
structure IsLineProperty (P : List Char → Prop) : Prop where
  unbroken : ∀ cs, '\n' ∉ cs → '\r' ∉ cs → P cs
  append : ∀ xs ys, P xs → P ys → P (xs ++ ys)

section
variable {behindReturn : Bool} {text cs xs ys : List Char}

/-! ## Parts of a text -/

theorem feedsFollowReturns_cons {c : Char} : feedsFollowReturns behindReturn (c :: cs) = true ↔
    (c = '\n' → behindReturn = true) ∧ feedsFollowReturns (c = '\r') cs = true := by
  simp [feedsFollowReturns, Decidable.imp_iff_not_or]

theorem feedsFollowReturns_mono (h : feedsFollowReturns false cs = true) (behindReturn : Bool) :
    feedsFollowReturns behindReturn cs = true := by
  cases cs with
  | nil => rfl
  | cons c cs =>
    rw [feedsFollowReturns_cons] at h ⊢
    exact ⟨fun hc => absurd (h.1 hc) Bool.false_ne_true, h.2⟩

/-- A text that does not begin with a line feed does not need a carriage return before it. -/
theorem feedsFollowReturns_of_head? (h : feedsFollowReturns behindReturn cs = true) (hhead : cs.head? ≠ some '\n') :
    feedsFollowReturns false cs = true := by
  cases cs with
  | nil => rfl
  | cons c cs =>
    rw [feedsFollowReturns_cons] at h ⊢
    refine ⟨fun hc => ?_, h.2⟩
    rw [hc] at hhead
    exact absurd rfl hhead

theorem feedsFollowReturns_append (h : feedsFollowReturns behindReturn xs = true)
    (h' : feedsFollowReturns false ys = true) : feedsFollowReturns behindReturn (xs ++ ys) = true := by
  induction xs generalizing behindReturn with
  | nil => exact feedsFollowReturns_mono h' behindReturn
  | cons c xs ih =>
    rw [feedsFollowReturns_cons] at h
    rw [List.cons_append, feedsFollowReturns_cons]
    exact ⟨h.1, ih h.2⟩

theorem feedsFollowReturns_left (h : feedsFollowReturns behindReturn (xs ++ ys) = true) :
    feedsFollowReturns behindReturn xs = true := by
  induction xs generalizing behindReturn with
  | nil => rfl
  | cons c xs ih =>
    rw [List.cons_append, feedsFollowReturns_cons] at h
    exact feedsFollowReturns_cons.mpr ⟨h.1, ih h.2⟩

/-- What stands behind a part of a text has a carriage return before it at most if the part ends with one. -/
theorem feedsFollowReturns_right (h : feedsFollowReturns behindReturn (xs ++ ys) = true) :
    feedsFollowReturns ((xs.getLast?.map fun c => decide (c = '\r')).getD behindReturn) ys = true := by
  induction xs generalizing behindReturn with
  | nil => exact h
  | cons c xs ih =>
    rw [List.cons_append, feedsFollowReturns_cons] at h
    have hrest := ih h.2
    cases xs with
    | nil => exact hrest
    | cons d xs =>
      rw [List.getLast?_cons_cons]
      cases hlast : (d :: xs).getLast? with
      | none => simp at hlast
      | some e =>
        rw [hlast] at hrest
        exact hrest

/-- A line feed of such a text stands directly behind a carriage return. -/
theorem exists_return_of_feed (h : feedsFollowReturns false (xs ++ '\n' :: ys) = true) :
    ∃ front, xs = front ++ ['\r'] := by
  have hfeed := (feedsFollowReturns_cons.mp (feedsFollowReturns_right h)).1 rfl
  rcases List.eq_nil_or_concat xs with rfl | ⟨front, c, rfl⟩
  · exact absurd hfeed Bool.false_ne_true
  · exact ⟨front, by simpa using hfeed⟩

/-! ## Offsets in line breaks -/

theorem splitsBreak_append (before after : List Char) : splitsBreak (before ++ after) (byteLength before) =
    (before.getLast? == some '\r' && after.head? == some '\n') := by
  rw [splitsBreak, takeBytes_byteLength_append, dropBytes_byteLength_append]

/-- What begins with no line feed does not begin in a line break. -/
theorem splitsBreak_of_head?_ne {before after : List Char} (h : after.head? ≠ some '\n') :
    splitsBreak (before ++ after) (byteLength before) = false := by
  rw [splitsBreak_append, beq_eq_false_iff_ne.mpr h, Bool.and_false]

/-- What ends with no carriage return does not end in a line break. -/
theorem splitsBreak_of_getLast?_ne {before after : List Char} (h : before.getLast? ≠ some '\r') :
    splitsBreak (before ++ after) (byteLength before) = false := by
  rw [splitsBreak_append, beq_eq_false_iff_ne.mpr h, Bool.false_and]

/-- A part of such a text that does not begin in a line break is one itself. -/
theorem feedsFollowReturns_holds {range : TextRange} {part : List Char} (h : feedsFollowReturns false text = true)
    (hholds : range.Holds text part) (hstart : splitsBreak text range.start = false) :
    feedsFollowReturns false part = true := by
  obtain ⟨before, after, rfl, hbefore, -⟩ := hholds
  rw [List.append_assoc] at h hstart
  rw [hbefore, splitsBreak_append] at hstart
  refine feedsFollowReturns_of_head? (feedsFollowReturns_left (feedsFollowReturns_right h)) ?_
  -- a line feed at the beginning would follow a carriage return
  intro hhead
  obtain ⟨tail, rfl⟩ := List.head?_eq_some_iff.mp hhead
  obtain ⟨front, rfl⟩ := exists_return_of_feed h
  simp at hstart

/-! ## Properties of lines -/

theorem isLineProperty_feedsFollowReturns : IsLineProperty fun cs => feedsFollowReturns false cs = true where
  unbroken := by
    rintro cs hfeed -
    induction cs with
    | nil => rfl
    | cons c cs ih =>
      rw [List.mem_cons, not_or] at hfeed
      exact feedsFollowReturns_cons.mpr ⟨fun hc => absurd hc.symm hfeed.1, feedsFollowReturns_mono (ih hfeed.2) _⟩
  append := fun _ _ => feedsFollowReturns_append

theorem isLineProperty_noReturn : IsLineProperty fun cs => '\r' ∉ cs where
  unbroken := fun _ _ hreturn => hreturn
  append := by
    intro xs ys hxs hys hmem
    exact (List.mem_append.mp hmem).elim hxs hys

/-- Texts that are joined have such a property if each of them has it. -/
theorem IsLineProperty.join {P : List Char → Prop} (hP : IsLineProperty P) {ss : List String}
    (h : ∀ s ∈ ss, P s.toList) : P (String.join ss).toList := by
  induction ss with
  | nil => exact hP.unbroken _ (by simp) (by simp)
  | cons s ss ih =>
    rw [String.join_cons, String.toList_append]
    exact hP.append _ _ (h s List.mem_cons_self) (ih fun t ht => h t (List.mem_cons_of_mem s ht))

/-! ## The first line -/

theorem firstLineEndsWithReturn_of_feeds (h : feedsFollowReturns false cs = true) (hfeed : '\n' ∈ cs) :
    firstLineEndsWithReturn cs = true := by
  fun_induction firstLineEndsWithReturn cs with
  | case1 => rfl
  | case2 cs => exact absurd ((feedsFollowReturns_cons.mp h).1 rfl) Bool.false_ne_true
  | case3 c cs hreturn hline ih =>
    have hne : '\n' ≠ c := fun heq => hline heq.symm
    have hrest := (feedsFollowReturns_cons.mp h).2
    refine ih (feedsFollowReturns_of_head? hrest ?_) ((List.mem_cons.mp hfeed).resolve_left hne)
    -- a carriage return before a line feed would be the end of the line
    intro hhead
    obtain ⟨tail, rfl⟩ := List.head?_eq_some_iff.mp hhead
    have hc : c = '\r' := by simpa using (feedsFollowReturns_cons.mp hrest).1 rfl
    exact hreturn tail hc rfl
  | case4 => cases hfeed

theorem firstLineEndsWithReturn_of_not_mem (h : '\r' ∉ cs) : firstLineEndsWithReturn cs = false := by
  fun_induction firstLineEndsWithReturn cs with
  | case1 => exact absurd List.mem_cons_self h
  | case2 => rfl
  | case3 c cs _ _ ih => exact ih fun hmem => h (List.mem_cons_of_mem c hmem)
  | case4 => rfl

/-! ## Weaving -/

variable {inserted : Nat → List Char} {removed : Nat → Bool}

theorem mem_weave {c : Char} {offset : Nat} (h : c ∈ weave inserted removed offset cs) :
    c ∈ cs ∨ ∃ n, c ∈ inserted n := by
  induction cs generalizing offset with
  | nil => exact Or.inr ⟨offset, h⟩
  | cons d cs ih =>
    rw [weave, List.mem_append, List.mem_append] at h
    rcases h with (h | h) | h
    · exact Or.inr ⟨offset, h⟩
    · left
      split at h
      · cases h
      · exact List.mem_singleton.mp h ▸ List.mem_cons_self
    · exact (ih h).imp (List.mem_cons_of_mem d) id

/-- Edits keep line breaks whole: nothing is inserted in one, and no removal ends in one. -/
structure KeepBreaksWhole (text : List Char) (inserted : Nat → List Char) (removed : Nat → Bool) : Prop where
  inserted : ∀ n, inserted n ≠ [] → splitsBreak text n = false
  removed : ∀ n, removed n = true → removed (n + 1) = false → splitsBreak text (n + 1) = false

theorem feedsFollowReturns_weave_from (htext : feedsFollowReturns false text = true)
    (hinserted : ∀ n, feedsFollowReturns false (inserted n) = true)
    (hfeed : ∀ before after, text = before ++ '\n' :: after → removed (byteLength before) = false →
      inserted (byteLength before) = [] ∧ ∀ front, before = front ++ ['\r'] → removed (byteLength front) = false)
    {before : List Char} (hparts : text = before ++ cs)
    (hbehind : ∀ front, before = front ++ ['\r'] → removed (byteLength front) = false → behindReturn = true) :
    feedsFollowReturns behindReturn (weave inserted removed (byteLength before) cs) = true := by
  induction cs generalizing before behindReturn with
  | nil => exact feedsFollowReturns_mono (hinserted _) behindReturn
  | cons c cs ih =>
    have hnext : text = (before ++ [c]) ++ cs := by
      rw [hparts, List.append_assoc]
      rfl
    have hlength : byteLength (before ++ [c]) = byteLength before + c.utf8Size := by simp
    rw [weave, List.append_assoc]
    cases hgoes : removed (byteLength before) with
    | true =>
      -- nothing that stays is behind a carriage return that stays
      have hrest : feedsFollowReturns false (weave inserted removed (byteLength (before ++ [c])) cs) = true := by
        refine ih hnext fun front hfront hkept => ?_
        obtain ⟨rfl, -⟩ := List.append_inj' hfront rfl
        rw [hgoes] at hkept
        cases hkept
      rw [hlength] at hrest
      rw [if_pos rfl, List.nil_append]
      exact feedsFollowReturns_append (feedsFollowReturns_mono (hinserted _) _) hrest
    | false =>
      have hrest : feedsFollowReturns (c = '\r') (weave inserted removed (byteLength (before ++ [c])) cs) = true := by
        refine ih hnext fun front hfront _ => ?_
        obtain ⟨-, hc⟩ := List.append_inj' hfront rfl
        exact decide_eq_true (List.singleton_inj.mp hc)
      rw [hlength] at hrest
      rw [if_neg Bool.false_ne_true, List.singleton_append]
      by_cases hc : c = '\n'
      · subst hc
        obtain ⟨hnone, hkept⟩ := hfeed before cs hparts hgoes
        obtain ⟨front, hfront⟩ := exists_return_of_feed (hparts ▸ htext)
        rw [hnone, List.nil_append, feedsFollowReturns_cons]
        exact ⟨fun _ => hbehind front hfront (hkept front hfront), hrest⟩
      · refine feedsFollowReturns_append (feedsFollowReturns_mono (hinserted _) _) ?_
        exact feedsFollowReturns_cons.mpr ⟨fun h => absurd h hc, hrest⟩

/-- Line feeds follow carriage returns in a text with edits woven into it, if they do so in all that is inserted and the
edits keep line breaks whole. -/
theorem feedsFollowReturns_weave (htext : feedsFollowReturns false text = true)
    (hinserted : ∀ n, feedsFollowReturns false (inserted n) = true) (hwhole : KeepBreaksWhole text inserted removed) :
    feedsFollowReturns false (weave inserted removed 0 text) = true := by
  refine @feedsFollowReturns_weave_from _ _ _ _ _ htext hinserted ?_ [] rfl fun front h _ => by simp at h
  intro before after hparts hstays
  rw [hparts] at htext
  obtain ⟨front, rfl⟩ := exists_return_of_feed htext
  have hlength : byteLength (front ++ ['\r']) = byteLength front + 1 := byteLength_append _ _
  have hsplits : splitsBreak text (byteLength (front ++ ['\r'])) = true := by
    rw [hparts, splitsBreak_append]
    simp
  constructor
  · refine Classical.byContradiction fun hne => ?_
    rw [hwhole.inserted _ hne] at hsplits
    cases hsplits
  · intro front' hfront
    obtain ⟨rfl, -⟩ := List.append_inj' hfront rfl
    refine Bool.eq_false_iff.mpr fun hgoes => ?_
    rw [hlength] at hstays hsplits
    rw [hwhole.removed _ hgoes hstays] at hsplits
    cases hsplits

end

end FieldInjection
