import FieldInjection.Text.Range

/-!
# Cutting a text at boundaries

A boundary of a text is the length of one of its beginnings (`isBoundary_iff`). Between two boundaries stands a
stretch of the text whose length is their distance, and the text from the first one on is that stretch and the
text from the second one on (`dropBytes_eq_slice_append`).
-/

namespace FieldInjection

/-- The characters of a text that is spelled in pieces. -/
theorem toList_append_ofList {front : String} {cs ds : List Char} (h : front.toList = cs) :
    (front ++ String.ofList ds).toList = cs ++ ds := by
  rw [String.toList_append, h, String.toList_ofList]

theorem byteLength_pos {cs : List Char} (h : cs ≠ []) : 0 < byteLength cs := by
  obtain ⟨c, cs, rfl⟩ := List.exists_cons_of_ne_nil h
  have hsize := c.utf8Size_pos
  rw [byteLength_cons]
  omega

/-- A character and what follows it are longer than the rest by the character's length. -/
theorem exists_utf8Size_add_eq (c : Char) (n : Nat) : ∃ m, c.utf8Size + n = m + 1 ∧ m + 1 - c.utf8Size = n := by
  have hpos := c.utf8Size_pos
  exact ⟨c.utf8Size + n - 1, by omega, by omega⟩

@[simp] theorem isBoundary_zero (cs : List Char) : isBoundary cs 0 = true := by
  cases cs <;> rfl

theorem isBoundary_byteLength_append (pre post : List Char) :
    isBoundary (pre ++ post) (byteLength pre) = true := by
  induction pre with
  | nil => simp
  | cons c pre ih =>
    obtain ⟨n, hn, hrest⟩ := exists_utf8Size_add_eq c (byteLength pre)
    simp only [List.cons_append, byteLength_cons, hn, isBoundary, hrest, ih, Bool.and_true,
      decide_eq_true_eq]
    omega

/-- A boundary is the length of a beginning of the text. -/
theorem isBoundary_iff {cs : List Char} {n : Nat} :
    isBoundary cs n = true ↔ ∃ pre post, cs = pre ++ post ∧ byteLength pre = n := by
  constructor
  · intro h
    exact ⟨takeBytes cs n, dropBytes cs n, (take_append_drop cs n).symm, byteLength_takeBytes h⟩
  · rintro ⟨pre, post, rfl, rfl⟩
    exact isBoundary_byteLength_append pre post

@[simp] theorem dropBytes_byteLength_append (pre post : List Char) :
    dropBytes (pre ++ post) (byteLength pre) = post := by
  induction pre with
  | nil => cases post <;> rfl
  | cons c pre ih =>
    obtain ⟨n, hn, hrest⟩ := exists_utf8Size_add_eq c (byteLength pre)
    rw [List.cons_append, byteLength_cons, hn, dropBytes, hrest, ih]

@[simp] theorem takeBytes_byteLength_append (pre post : List Char) :
    takeBytes (pre ++ post) (byteLength pre) = pre := by
  have h := take_append_drop (pre ++ post) (byteLength pre)
  rw [dropBytes_byteLength_append] at h
  exact List.append_cancel_right h

@[simp] theorem dropBytes_zero (cs : List Char) : dropBytes cs 0 = cs := by
  cases cs <;> rfl

/-- Of two cuts of one text the later one leaves more before it. -/
theorem exists_between {xs ys xs' ys' : List Char} (h : xs ++ ys = xs' ++ ys') (hle : byteLength xs ≤ byteLength xs') :
    ∃ mid, xs' = xs ++ mid ∧ ys = mid ++ ys' := by
  rcases List.append_eq_append_iff.mp h with ⟨mid, rfl, rfl⟩ | ⟨mid, rfl, rfl⟩
  · exact ⟨mid, rfl, rfl⟩
  · -- the other way round it leaves no less, so nothing stands between the two
    rw [byteLength_append] at hle
    obtain rfl : mid = [] := by
      refine Classical.byContradiction fun hne => ?_
      have hpos := byteLength_pos hne
      omega
    exact ⟨[], by simp, by simp⟩

/-- Two boundaries cut a text into three parts. -/
theorem exists_parts {cs : List Char} {a b : Nat} (ha : isBoundary cs a = true)
    (hb : isBoundary cs b = true) (hab : a ≤ b) :
    ∃ pre mid post, cs = pre ++ (mid ++ post) ∧ byteLength pre = a ∧ byteLength mid = b - a := by
  obtain ⟨pre, rest, rfl, rfl⟩ := isBoundary_iff.mp ha
  obtain ⟨whole, post, hcut, hlen⟩ := isBoundary_iff.mp hb
  obtain ⟨mid, rfl, rfl⟩ := exists_between hcut (hlen ▸ hab)
  refine ⟨pre, mid, post, rfl, rfl, ?_⟩
  rw [byteLength_append] at hlen
  omega

/-- The text from one boundary on is the stretch up to another one and the text from there on. -/
theorem dropBytes_eq_slice_append {cs : List Char} {a b : Nat} (ha : isBoundary cs a = true)
    (hb : isBoundary cs b = true) (hab : a ≤ b) :
    dropBytes cs a = sliceBytes cs a b ++ dropBytes cs b ∧ byteLength (sliceBytes cs a b) = b - a := by
  obtain ⟨pre, mid, post, rfl, rfl, hmid⟩ := exists_parts ha hb hab
  have hb' : b = byteLength (pre ++ mid) := by
    rw [byteLength_append]
    omega
  have hdrop : dropBytes (pre ++ (mid ++ post)) b = post := by
    rw [hb', ← List.append_assoc, dropBytes_byteLength_append]
  have hslice : sliceBytes (pre ++ (mid ++ post)) (byteLength pre) b = mid := by
    rw [sliceBytes, dropBytes_byteLength_append, ← hmid, takeBytes_byteLength_append]
  rw [hdrop, hslice, dropBytes_byteLength_append]
  exact ⟨rfl, hmid⟩

end FieldInjection
