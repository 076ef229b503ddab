import Mathlib.Data.List.Basic
import FieldInjection.Path

/-!
# Segments and components

What a text says about the components of its path: a slash between two texts divides their segments
(`segments_append_slash`), so joining names to a path adds their components (`components_join`). A path that ends in
a root is spelled like that of a directory (`endsLikeDirectory_of_root`).
-/

namespace FieldInjection.Path

/-! ## Segments -/

theorem exists_segments (cs : List Char) : ∃ s rest, segments cs = s :: rest := by
  cases cs with
  | nil => exact ⟨[], [], rfl⟩
  | cons c cs =>
    rw [segments]
    split
    · exact ⟨[c], [], rfl⟩
    · split
      · exact ⟨[], _, rfl⟩
      · exact ⟨_, _, rfl⟩

theorem segments_slash (cs : List Char) : segments ('/' :: cs) = [] :: segments cs := by
  obtain ⟨s, rest, h⟩ := exists_segments cs
  simp [segments, h]

theorem segments_cons {c : Char} (hc : c ≠ '/') {cs s : List Char} {rest : List (List Char)}
    (h : segments cs = s :: rest) : segments (c :: cs) = (c :: s) :: rest := by
  simp [segments, h, hc]

/-- A slash divides the segments on its sides. -/
theorem segments_append_slash (as bs : List Char) : segments (as ++ '/' :: bs) = segments as ++ segments bs := by
  induction as with
  | nil => exact segments_slash bs
  | cons c as ih =>
    rw [List.cons_append]
    by_cases hc : c = '/'
    · subst hc
      rw [segments_slash, segments_slash, ih]
      rfl
    · obtain ⟨s, rest, h⟩ := exists_segments as
      rw [segments_cons hc h, segments_cons hc (ih.trans (by rw [h]; rfl))]
      rfl

theorem segments_of_no_slash {s : List Char} (h : '/' ∉ s) : segments s = [s] := by
  induction s with
  | nil => rfl
  | cons c s ih =>
    rw [List.mem_cons, not_or] at h
    exact segments_cons (Ne.symm h.1) (ih h.2)

/-- Putting the slashes back gives the text. -/
theorem ofSegments_segments (cs : List Char) : ofSegments (segments cs) = cs := by
  induction cs with
  | nil => rfl
  | cons c cs ih =>
    obtain ⟨s, rest, h⟩ := exists_segments cs
    rw [h] at ih
    by_cases hc : c = '/'
    · subst hc
      rw [segments_slash, h]
      show '/' :: ofSegments (s :: rest) = _
      rw [ih]
    · rw [segments_cons hc h]
      cases rest with
      | nil => exact congrArg (c :: ·) ih
      | cons s' rest => exact congrArg (c :: ·) ih

theorem ofSegments_concat {ss : List (List Char)} (h : ss ≠ []) (s : List Char) :
    ofSegments (ss ++ [s]) = ofSegments ss ++ '/' :: s := by
  induction ss with
  | nil => exact absurd rfl h
  | cons s' ss ih =>
    cases ss with
    | nil => rfl
    | cons s'' ss =>
      show s' ++ '/' :: ofSegments (s'' :: ss ++ [s]) = s' ++ '/' :: ofSegments (s'' :: ss) ++ '/' :: s
      rw [ih (List.cons_ne_nil s'' ss), List.append_assoc, List.cons_append]

/-! ## Components -/

theorem bodyComponents_append (ss ts : List (List Char)) :
    bodyComponents (ss ++ ts) = bodyComponents ss ++ bodyComponents ts := by
  simp [bodyComponents]

/-- A root stands in front of all other components only. -/
theorem root_not_mem_bodyComponents (ss : List (List Char)) : Component.root ∉ bodyComponents ss := by
  intro h
  obtain ⟨s, -, hs⟩ := List.mem_map.mp h
  split at hs <;> cases hs

theorem root_not_mem_tail_components (p : Path) : Component.root ∉ p.components.tail := by
  unfold components
  cases p.split.1 with
  | none => exact fun h => root_not_mem_bodyComponents _ (List.mem_of_mem_tail h)
  | some c => exact root_not_mem_bodyComponents _

/-- How some segments begin, and those that follow. -/
def splitSegments : List (List Char) → Option Component × List (List Char)
  | [] :: s :: rest => (some .root, s :: rest)
  | ['.'] :: rest => (some .current, rest)
  | ss => (none, ss)

theorem components_eq {p : Path} {ss : List (List Char)} (h : segments p.text.toList = ss) :
    p.components = (splitSegments ss).1.toList ++ bodyComponents (splitSegments ss).2 := by
  rw [← h]
  unfold components split splitSegments
  rfl

/-- A path begins with a root, with a `.`, or with a segment that counts; only the empty path has nothing. -/
theorem splitSegments_cases (s : List Char) (rest : List (List Char)) :
    (s = [] ∧ rest = []) ∨
    (s = [] ∧ rest ≠ [] ∧ splitSegments (s :: rest) = (some .root, rest)) ∨
    (s = ['.'] ∧ splitSegments (s :: rest) = (some .current, rest)) ∨
    (isIdle s = false ∧ splitSegments (s :: rest) = (none, s :: rest)) := by
  by_cases hnil : s = []
  · subst hnil
    cases rest with
    | nil => exact Or.inl ⟨rfl, rfl⟩
    | cons s' rest => exact Or.inr (Or.inl ⟨rfl, List.cons_ne_nil s' rest, rfl⟩)
  · by_cases hdot : s = ['.']
    · subst hdot
      exact Or.inr (Or.inr (Or.inl ⟨rfl, rfl⟩))
    · refine Or.inr (Or.inr (Or.inr ⟨by simp [isIdle, hnil, hdot], ?_⟩))
      unfold splitSegments
      split
      · exact absurd (List.cons.inj ‹_›).1 hnil
      · exact absurd (List.cons.inj ‹_›).1 hdot
      · rfl

theorem text_eq_of_segments {p : Path} {ss : List (List Char)} (h : segments p.text.toList = ss) :
    p.text.toList = ofSegments ss := by
  rw [← h, ofSegments_segments]

theorem text_ne_nil_iff {p : Path} : p.text.toList ≠ [] ↔ p.text ≠ "" := by
  simp

theorem components_ne_nil {p : Path} (h : p.text ≠ "") : p.components ≠ [] := by
  obtain ⟨s, rest, hs⟩ := exists_segments p.text.toList
  rw [components_eq hs]
  obtain ⟨rfl, rfl⟩ | ⟨-, -, heq⟩ | ⟨-, heq⟩ | ⟨hcounts, heq⟩ := splitSegments_cases s rest
  · exact absurd (text_eq_of_segments hs) (text_ne_nil_iff.mpr h)
  · simp [heq]
  · simp [heq]
  · simp [heq, bodyComponents, hcounts]

/-- A path that ends in a root is spelled like that of a directory. -/
theorem endsLikeDirectory_of_root {p : Path} (h : p.components.getLast? = some .root) :
    p.endsLikeDirectory = true := by
  obtain ⟨s, rest, hs⟩ := exists_segments p.text.toList
  rw [components_eq hs] at h
  obtain ⟨rfl, rfl⟩ | ⟨rfl, hrest, heq⟩ | ⟨-, heq⟩ | ⟨-, heq⟩ := splitSegments_cases s rest
  · cases h
  · -- all segments behind the first slash are idle, so the text ends in a slash or in one and a dot
    rw [heq] at h
    have hbody : bodyComponents rest = [] := by
      by_contra hne
      rw [List.getLast?_append_of_ne_nil _ hne] at h
      exact root_not_mem_bodyComponents rest (List.mem_of_getLast? h)
    obtain ⟨front, last, rfl⟩ := (List.eq_nil_or_concat' rest).resolve_left hrest
    have hidle : last = [] ∨ last = ['.'] := by
      rw [bodyComponents_append, List.append_eq_nil_iff] at hbody
      have hlast : isIdle last = true := by simpa [bodyComponents] using hbody.2
      simpa [isIdle] using hlast
    have htext : p.text.toList = ofSegments ([] :: front) ++ '/' :: last :=
      (text_eq_of_segments hs).trans (ofSegments_concat (List.cons_ne_nil [] front) last)
    rcases hidle with rfl | rfl <;> simp [endsLikeDirectory, htext]
  · rw [heq] at h
    have hmem := List.mem_of_getLast? h
    simp [root_not_mem_bodyComponents] at hmem
  · rw [heq] at h
    exact absurd (List.mem_of_getLast? h) (root_not_mem_bodyComponents _)

/-! ## Joining -/

/-- A name that a directory can have for an entry. -/
def IsFileName (name : String) : Prop :=
  name ≠ "" ∧ name ≠ "." ∧ name ≠ ".." ∧ '/' ∉ name.toList

instance (name : String) : Decidable (IsFileName name) := inferInstanceAs (Decidable (_ ∧ _ ∧ _ ∧ _))

theorem isIdle_of_isFileName {name : String} (h : IsFileName name) : isIdle name.toList = false := by
  obtain ⟨hempty, hdot, -⟩ := h
  simp only [isIdle, Bool.or_eq_false_iff, decide_eq_false_iff_not]
  refine ⟨by simpa using hempty, ?_⟩
  intro heq
  exact hdot (String.toList_injective heq)

theorem bodyComponents_names {names : List String} (h : ∀ name ∈ names, IsFileName name) :
    bodyComponents (names.map String.toList) = names.map Component.name := by
  induction names with
  | nil => rfl
  | cons name names ih =>
    obtain ⟨-, -, hparent, -⟩ := h name List.mem_cons_self
    have hidle := isIdle_of_isFileName (h name List.mem_cons_self)
    have hparent' : name.toList ≠ ['.', '.'] := fun heq => hparent (String.toList_injective heq)
    have hrest := ih fun name' hmem => h name' (List.mem_cons_of_mem name hmem)
    rw [List.map_cons, List.map_cons, ← hrest]
    simp [bodyComponents, hidle, hparent']

theorem segments_intercalate {names : List String} (h : ∀ name ∈ names, IsFileName name) (hne : names ≠ []) :
    segments (String.intercalate "/" names).toList = names.map String.toList := by
  induction names with
  | nil => exact absurd rfl hne
  | cons name names ih =>
    have hslash := (h name List.mem_cons_self).2.2.2
    cases names with
    | nil => simpa using segments_of_no_slash hslash
    | cons name' names =>
      have hrest := ih (fun n hmem => h n (List.mem_cons_of_mem name hmem)) (List.cons_ne_nil name' names)
      have htext : (String.intercalate "/" (name :: name' :: names)).toList =
          name.toList ++ '/' :: (String.intercalate "/" (name' :: names)).toList := by
        simp [String.intercalate_cons_cons]
      rw [htext, segments_append_slash, segments_of_no_slash hslash, hrest]
      rfl

/-- More segments behind the first ones do not change how a path begins. -/
theorem splitSegments_append {ss : List (List Char)} (h : ss ≠ []) (hempty : ss ≠ [[]]) (ts : List (List Char)) :
    splitSegments (ss ++ ts) = ((splitSegments ss).1, (splitSegments ss).2 ++ ts) := by
  obtain ⟨s, rest, rfl⟩ := List.exists_cons_of_ne_nil h
  rw [List.cons_append]
  obtain ⟨rfl, rfl⟩ | ⟨rfl, hrest, -⟩ | ⟨rfl, -⟩ | ⟨hcounts, heq⟩ := splitSegments_cases s rest
  · exact absurd rfl hempty
  · obtain ⟨s', rest, rfl⟩ := List.exists_cons_of_ne_nil hrest
    rfl
  · rfl
  · obtain ⟨rfl, -⟩ | ⟨rfl, -⟩ | ⟨rfl, -⟩ | ⟨-, heq'⟩ := splitSegments_cases s (rest ++ ts)
    · cases hcounts
    · cases hcounts
    · cases hcounts
    · rw [heq, heq']
      rfl

theorem split_eq {p : Path} {ss : List (List Char)} (h : segments p.text.toList = ss) : p.split = splitSegments ss := by
  rw [← h]
  rfl

theorem components_of_split {p : Path} {c : Option Component} {ss : List (List Char)} (h : p.split = (c, ss)) :
    p.components = c.toList ++ bodyComponents ss := by
  rw [components, h]

/-- A path begins like another one, and the segments `ts` stand behind those of its components. -/
def Extends (q p : Path) (ts : List (List Char)) : Prop :=
  ∃ ss, q.split = (p.split.1, ss ++ ts) ∧ bodyComponents ss = bodyComponents p.split.2

theorem Extends.components {p q : Path} {ts : List (List Char)} (h : q.Extends p ts) :
    q.components = p.components ++ bodyComponents ts := by
  obtain ⟨ss, hsplit, hbody⟩ := h
  rw [components_of_split hsplit, bodyComponents_append, hbody, Path.components, List.append_assoc]

/-- A text with a slash is extended by the segments behind the slash. -/
theorem extends_of_slash {p q : Path} {a : List Char} {ts : List (List Char)} (hp : p.text.toList = a ++ ['/'])
    (hq : segments q.text.toList = segments a ++ ts) (hts : ts ≠ []) : q.Extends p ts := by
  have hsegments : segments p.text.toList = segments a ++ [[]] := by
    rw [hp, segments_append_slash]
    rfl
  rw [Extends, split_eq hq, split_eq hsegments]
  by_cases ha : segments a = [[]]
  · -- the slash is the first character
    obtain ⟨t, ts, rfl⟩ := List.exists_cons_of_ne_nil hts
    rw [ha]
    exact ⟨[], rfl, rfl⟩
  · obtain ⟨s, rest, hs⟩ := exists_segments a
    have hne : segments a ≠ [] := by simp [hs]
    rw [splitSegments_append hne ha, splitSegments_append hne ha]
    refine ⟨_, rfl, ?_⟩
    rw [bodyComponents_append]
    exact (List.append_nil _).symm

/-- So is any text by segments that are added to it. -/
theorem extends_of_segments {p q : Path} {ts : List (List Char)} (hp : p.text ≠ "")
    (hq : segments q.text.toList = segments p.text.toList ++ ts) : q.Extends p ts := by
  have hempty : segments p.text.toList ≠ [[]] := by
    intro heq
    exact text_ne_nil_iff.mpr hp (text_eq_of_segments heq)
  obtain ⟨s, rest, hs⟩ := exists_segments p.text.toList
  have hne : segments p.text.toList ≠ [] := by simp [hs]
  rw [Extends, split_eq hq, splitSegments_append hne hempty]
  exact ⟨_, rfl, rfl⟩

/-- Only a path whose first segment is empty can begin with a slash. -/
theorem not_isAbsolute_of_segments {p : Path} {s : List Char} {rest : List (List Char)}
    (h : segments p.text.toList = s :: rest) (hs : s ≠ []) : p.isAbsolute = false := by
  unfold isAbsolute
  split
  · rename_i cs heq
    rw [heq, segments_slash] at h
    exact absurd (List.cons.inj h).1.symm hs
  · rfl

theorem not_isAbsolute_of_names {names : List String} (hne : names ≠ []) (h : ∀ name ∈ names, IsFileName name) :
    Path.isAbsolute ⟨String.intercalate "/" names⟩ = false := by
  have hnames := segments_intercalate h hne
  obtain ⟨name, names, rfl⟩ := List.exists_cons_of_ne_nil hne
  exact not_isAbsolute_of_segments hnames (by simpa using (h name List.mem_cons_self).1)

/-- Joining a path that does not begin with a slash adds its segments. -/
theorem segments_join {root rest : Path} (hroot : root.text ≠ "") (hrest : rest.isAbsolute = false) :
    (∃ ss, segments (root.join rest).text.toList = ss ++ segments rest.text.toList) ∧
    (root.join rest).Extends root (segments rest.text.toList) := by
  have hne : segments rest.text.toList ≠ [] := by
    obtain ⟨s, ss, h⟩ := exists_segments rest.text.toList
    simp [h]
  rw [join, hrest]
  simp only [Bool.false_eq_true, if_false]
  obtain ⟨a, c, hac⟩ := (List.eq_nil_or_concat' root.text.toList).resolve_left (text_ne_nil_iff.mpr hroot)
  rw [hac, List.getLast?_concat]
  by_cases hc : c = '/'
  · subst hc
    have hjoined : segments (root.text ++ rest.text).toList = segments a ++ segments rest.text.toList := by
      rw [String.toList_append, hac, List.append_assoc, List.singleton_append, segments_append_slash]
    exact ⟨⟨_, hjoined⟩, extends_of_slash (q := ⟨_⟩) hac hjoined hne⟩
  · have hjoined : segments (root.text ++ "/" ++ rest.text).toList =
        segments root.text.toList ++ segments rest.text.toList := by
      rw [← segments_append_slash, String.toList_append, String.toList_append, List.append_assoc]
      rfl
    have hextends := extends_of_segments (q := ⟨_⟩) hroot hjoined
    split
    · cases ‹some c = none›
    · exact absurd (Option.some.inj ‹some c = some '/'›) hc
    · exact ⟨⟨_, hjoined⟩, hextends⟩

theorem components_join {root : Path} (hroot : root.text ≠ "") {names : List String} (hne : names ≠ [])
    (h : ∀ name ∈ names, IsFileName name) :
    (root.join ⟨String.intercalate "/" names⟩).components = root.components ++ names.map Component.name := by
  rw [(segments_join hroot (not_isAbsolute_of_names hne h)).2.components, segments_intercalate h hne,
    bodyComponents_names h]

/-- A path whose last segment counts is not spelled like that of a directory. -/
theorem endsLikeDirectory_of_segments {p : Path} {ss : List (List Char)} {s : List Char}
    (h : segments p.text.toList = ss ++ [s]) (hs : isIdle s = false) : p.endsLikeDirectory = false := by
  -- the last segment of a text that ends in a slash, or in one and a dot, is idle
  have hlast : ∀ t u : List Char, '/' ∉ u → p.text.toList = t ++ '/' :: u → s = u := by
    intro t u hu htext
    rw [htext, segments_append_slash, segments_of_no_slash hu] at h
    exact (List.cons.inj (List.append_inj' h rfl).2).1.symm
  unfold endsLikeDirectory
  split
  · rename_i front hreverse
    have htext : p.text.toList = front.reverse ++ '/' :: [] := by simpa using congrArg List.reverse hreverse
    rw [hlast _ _ (by simp) htext] at hs
    cases hs
  · rename_i front hreverse
    have htext : p.text.toList = front.reverse ++ '/' :: ['.'] := by simpa using congrArg List.reverse hreverse
    rw [hlast _ _ (by simp) htext] at hs
    cases hs
  · rfl

theorem endsLikeDirectory_join {root : Path} (hroot : root.text ≠ "") {names : List String} (hne : names ≠ [])
    (h : ∀ name ∈ names, IsFileName name) :
    (root.join ⟨String.intercalate "/" names⟩).endsLikeDirectory = false := by
  obtain ⟨⟨ss, hss⟩, -⟩ := segments_join hroot (not_isAbsolute_of_names hne h)
  rw [segments_intercalate h hne] at hss
  obtain ⟨front, name, rfl⟩ := (List.eq_nil_or_concat' names).resolve_left hne
  rw [List.map_append, List.map_singleton, ← List.append_assoc] at hss
  refine endsLikeDirectory_of_segments hss (isIdle_of_isFileName (h name ?_))
  exact List.mem_append_right _ (List.mem_singleton_self name)

theorem text_join_ne {root : Path} (hroot : root.text ≠ "") {names : List String} (hne : names ≠ [])
    (h : ∀ name ∈ names, IsFileName name) : (root.join ⟨String.intercalate "/" names⟩).text ≠ "" := by
  intro hempty
  have hcomponents := components_join hroot hne h
  have hsegments : segments (root.join ⟨String.intercalate "/" names⟩).text.toList = [[]] := by
    rw [hempty]
    rfl
  rw [components_eq hsegments] at hcomponents
  have hnil := (List.append_eq_nil_iff.mp hcomponents.symm).2
  exact hne (List.map_eq_nil_iff.mp hnil)

end FieldInjection.Path
