import FieldInjection.Edit.Apply
import FieldInjection.Proofs.Text.Boundary

/-!
# What a batch of edits does to a text

`weave` says it character by character, without an order of application: in front of the character at an offset
stands what is inserted there, and the character stays unless it is removed. `applyEdits` succeeds exactly for
edits that are valid for the text and apart from each other (`applyEdits_isOk_iff`), and its result is the
weaving of what they insert and remove (`applyEdits_eq_weave`).
-/

namespace FieldInjection

/-- A text that begins at `offset`, with what is inserted at each offset and without the characters that are
removed. -/
def weave (inserted : Nat → List Char) (removed : Nat → Bool) (offset : Nat) : List Char → List Char
  | [] => inserted offset
  | c :: cs =>
    inserted offset ++ (if removed offset then [] else [c]) ++
      weave inserted removed (offset + c.utf8Size) cs

/-- What edits insert at an offset. -/
def insertedBy (es : List TextEdit) (offset : Nat) : List Char :=
  (es.filter fun e => e.range.start = offset).flatMap fun e => e.replacement.toList

/-- Whether edits remove the character at an offset. -/
def removedBy (es : List TextEdit) (offset : Nat) : Bool :=
  es.any fun e => e.range.start ≤ offset && offset < e.range.stop

/-- Two ranges are apart if one ends before the other begins. -/
def TextRange.IsApartFrom (a b : TextRange) : Prop := a.stop ≤ b.start ∨ b.stop ≤ a.start

theorem TextRange.IsApartFrom.symm {a b : TextRange} (h : a.IsApartFrom b) : b.IsApartFrom a := Or.symm h

/-- Two offsets are always apart, the same one from itself too. -/
theorem isApartFrom_empty (offset offset' : Nat) : (TextRange.empty offset).IsApartFrom (.empty offset') :=
  Nat.le_total offset offset'

section
variable {inserted inserted' : Nat → List Char} {removed removed' : Nat → Bool}

/-! ## Weaving -/

/-- Weaving looks at no offset before the beginning. -/
theorem weave_congr {offset : Nat} (hi : ∀ n, offset ≤ n → inserted n = inserted' n)
    (hr : ∀ n, offset ≤ n → removed n = removed' n) (cs : List Char) :
    weave inserted removed offset cs = weave inserted' removed' offset cs := by
  induction cs generalizing offset with
  | nil => exact hi offset (Nat.le_refl _)
  | cons c cs ih =>
    simp only [weave]
    rw [hi offset (Nat.le_refl _), hr offset (Nat.le_refl _),
      ih (fun n hn => hi n (by omega)) (fun n hn => hr n (by omega))]

/-- An insertion at the beginning stands in front. -/
theorem weave_insert {offset : Nat} {new : List Char} (hnew : inserted offset = new ++ inserted' offset)
    (hi : ∀ n, offset < n → inserted n = inserted' n) (cs : List Char) :
    weave inserted removed offset cs = new ++ weave inserted' removed offset cs := by
  cases cs with
  | nil => exact hnew
  | cons c cs =>
    have hpos := c.utf8Size_pos
    have hrest : weave inserted removed (offset + c.utf8Size) cs =
        weave inserted' removed (offset + c.utf8Size) cs :=
      weave_congr (fun n hn => hi n (by omega)) (fun _ _ => rfl) cs
    simp only [weave]
    rw [hnew, hrest]
    simp

/-- A stretch in which nothing is inserted stays if nothing of it is removed, and goes if all of it is. -/
theorem weave_stretch {offset : Nat} (xs ys : List Char) {goes : Bool}
    (hi : ∀ n, offset ≤ n → n < offset + byteLength xs → inserted n = [])
    (hr : ∀ n, offset ≤ n → n < offset + byteLength xs → removed n = goes) :
    weave inserted removed offset (xs ++ ys) =
      (if goes then [] else xs) ++ weave inserted removed (offset + byteLength xs) ys := by
  induction xs generalizing offset with
  | nil => simp
  | cons c xs ih =>
    have hpos := c.utf8Size_pos
    simp only [byteLength_cons] at hi hr ⊢
    simp only [List.cons_append, weave]
    rw [hi offset (Nat.le_refl _) (by omega), hr offset (Nat.le_refl _) (by omega),
      ih (fun n h₁ h₂ => hi n (by omega) (by omega)) (fun n h₁ h₂ => hr n (by omega) (by omega)),
      Nat.add_assoc]
    cases goes <;> rfl

end

/-! ## Edits in order -/

/-- Edits that come one behind the other, from an offset on. -/
def AreInOrder (cursor : Nat) (es : List TextEdit) : Prop :=
  (∀ e ∈ es, cursor ≤ e.range.start) ∧ es.Pairwise fun a b => a.range.stop ≤ b.range.start

theorem areInOrder_cons {cursor : Nat} {e : TextEdit} {es : List TextEdit} (h : AreInOrder cursor (e :: es)) :
    cursor ≤ e.range.start ∧ AreInOrder e.range.stop es := by
  obtain ⟨hstart, hpairs⟩ := h
  obtain ⟨hfirst, hrest⟩ := List.pairwise_cons.mp hpairs
  exact ⟨hstart e List.mem_cons_self, hfirst, hrest⟩

theorem insertedBy_cons (e : TextEdit) (es : List TextEdit) (offset : Nat) :
    insertedBy (e :: es) offset =
      (if e.range.start = offset then e.replacement.toList else []) ++ insertedBy es offset := by
  unfold insertedBy
  by_cases h : e.range.start = offset <;> simp [h]

theorem insertedBy_eq_nil {es : List TextEdit} {offset : Nat} (h : ∀ e ∈ es, offset < e.range.start) :
    insertedBy es offset = [] := by
  unfold insertedBy
  rw [List.filter_eq_nil_iff.mpr]
  · rfl
  · intro e he
    have := h e he
    simp
    omega

theorem removedBy_eq_false {es : List TextEdit} {offset : Nat} (h : ∀ e ∈ es, offset < e.range.start) :
    removedBy es offset = false := by
  unfold removedBy
  rw [List.any_eq_false]
  intro e he
  have := h e he
  simp
  omega

/-- Applying edits in order weaves them into the rest of the text. -/
theorem applyOrdered_eq_weave {text : List Char} (es : List TextEdit) (cursor : Nat)
    (previous : Option TextRange) (hcursor : isBoundary text cursor = true)
    (hvalid : ∀ e ∈ es, e.range.isValidFor text = true) (horder : AreInOrder cursor es) :
    applyOrdered text cursor previous es =
      .ok (weave (insertedBy es) (removedBy es) cursor (dropBytes text cursor)) := by
  induction es generalizing cursor previous with
  | nil =>
    have hkeep : weave (insertedBy []) (removedBy []) cursor (dropBytes text cursor ++ []) =
        dropBytes text cursor ++
          weave (insertedBy []) (removedBy []) (cursor + byteLength (dropBytes text cursor)) [] :=
      weave_stretch _ _ (fun _ _ _ => rfl) (fun _ _ _ => rfl)
    rw [List.append_nil] at hkeep
    rw [hkeep]
    simp [applyOrdered, weave, insertedBy]
  | cons e es ih =>
    obtain ⟨hle, hrest⟩ := areInOrder_cons horder
    have hv := hvalid e List.mem_cons_self
    simp only [TextRange.isValidFor, Bool.and_eq_true, decide_eq_true_eq] at hv
    obtain ⟨⟨hrange, hstart⟩, hstop⟩ := hv
    have hvalid' : e.range.isValidFor text = true := hvalid e List.mem_cons_self
    obtain ⟨hbefore, hbeforeLen⟩ := dropBytes_eq_slice_append hcursor hstart hle
    obtain ⟨hinside, hinsideLen⟩ := dropBytes_eq_slice_append hstart hstop hrange
    have hlater : ∀ f ∈ es, e.range.stop ≤ f.range.start := hrest.1
    -- what stands before the edit stays
    have hkeep : weave (insertedBy (e :: es)) (removedBy (e :: es)) cursor (dropBytes text cursor) =
        sliceBytes text cursor e.range.start ++
          weave (insertedBy (e :: es)) (removedBy (e :: es)) e.range.start
            (dropBytes text e.range.start) := by
      have hahead : ∀ n, n < e.range.start → ∀ f ∈ e :: es, n < f.range.start := by
        intro n hn f hf
        rcases List.mem_cons.mp hf with rfl | hf
        · exact hn
        · have := hlater f hf
          omega
      rw [hbefore, weave_stretch, hbeforeLen, Nat.add_sub_cancel' hle, if_neg Bool.false_ne_true]
      · intro n _ hn
        exact insertedBy_eq_nil (hahead n (by omega))
      · intro n _ hn
        exact removedBy_eq_false (hahead n (by omega))
    -- its replacement comes next
    have hinsert : weave (insertedBy (e :: es)) (removedBy (e :: es)) e.range.start
          (dropBytes text e.range.start) =
        e.replacement.toList ++ weave (insertedBy es) (removedBy (e :: es)) e.range.start
          (dropBytes text e.range.start) := by
      apply weave_insert
      · simp [insertedBy_cons]
      · intro n hn
        rw [insertedBy_cons, if_neg (by omega), List.nil_append]
    -- the range goes
    have hremove : weave (insertedBy es) (removedBy (e :: es)) e.range.start
          (dropBytes text e.range.start) =
        weave (insertedBy es) (removedBy (e :: es)) e.range.stop (dropBytes text e.range.stop) := by
      rw [hinside, weave_stretch, hinsideLen, Nat.add_sub_cancel' hrange, if_pos rfl, List.nil_append]
      · intro n _ hn
        exact insertedBy_eq_nil fun f hf => by have := hlater f hf; omega
      · intro n h₁ h₂
        have hcovers : (decide (e.range.start ≤ n) && decide (n < e.range.stop)) = true := by
          simp
          omega
        simp [removedBy, hcovers]
    -- and behind it only the other edits count
    have hbehind : weave (insertedBy es) (removedBy (e :: es)) e.range.stop (dropBytes text e.range.stop) =
        weave (insertedBy es) (removedBy es) e.range.stop (dropBytes text e.range.stop) := by
      apply weave_congr (fun _ _ => rfl)
      intro n hn
      have hbeyond : (decide (e.range.start ≤ n) && decide (n < e.range.stop)) = false := by
        simp
        omega
      simp [removedBy, hbeyond]
    have hih := ih e.range.stop (some e.range) hstop
      (fun f hf => hvalid f (List.mem_cons_of_mem e hf)) hrest
    rw [applyOrdered, hih, hkeep, hinsert, hremove, hbehind]
    simp [hvalid', Nat.not_lt.mpr hle]

/-- Whatever can be applied in order is valid and in order. -/
theorem areInOrder_of_applyOrdered {text : List Char} (es : List TextEdit) (cursor : Nat)
    (previous : Option TextRange) {result : List Char}
    (h : applyOrdered text cursor previous es = .ok result) :
    (∀ e ∈ es, e.range.isValidFor text = true) ∧ AreInOrder cursor es := by
  induction es generalizing cursor previous result with
  | nil => exact ⟨by simp, by simp [AreInOrder]⟩
  | cons e es ih =>
    rw [applyOrdered] at h
    -- an edit that is not valid, or begins before the cursor, would have stopped the run
    by_cases hinvalid : e.range.isValidFor text = false
    · simp [hinvalid] at h
    have hvalid : e.range.isValidFor text = true := by simpa using hinvalid
    by_cases hstart : e.range.start < cursor
    · simp [hvalid, hstart] at h
    cases hrest : applyOrdered text e.range.stop (some e.range) es with
    | error conflict => simp [hvalid, hstart, hrest] at h
    | ok tail =>
      obtain ⟨hvalids, hafter, hpairs⟩ := ih _ _ hrest
      have hrange : e.range.start ≤ e.range.stop := by
        simp only [TextRange.isValidFor, Bool.and_eq_true, decide_eq_true_eq] at hvalid
        exact hvalid.1.1
      refine ⟨?_, ?_, List.pairwise_cons.mpr ⟨hafter, hpairs⟩⟩
      · intro f hf
        rcases List.mem_cons.mp hf with rfl | hf
        · exact hvalid
        · exact hvalids f hf
      · intro f hf
        rcases List.mem_cons.mp hf with rfl | hf
        · omega
        · have := hafter f hf
          omega

/-! ## Edits in any order -/

theorem TextEdit.le_iff {a b : TextEdit} : a.le b = true ↔
    a.range.start < b.range.start ∨ a.range.start = b.range.start ∧ a.range.stop ≤ b.range.stop := by
  simp [TextEdit.le]

theorem TextEdit.le_trans (a b c : TextEdit) (hab : a.le b = true) (hbc : b.le c = true) :
    a.le c = true := by
  rw [TextEdit.le_iff] at *
  omega

theorem TextEdit.le_total (a b : TextEdit) : (a.le b || b.le a) = true := by
  rw [Bool.or_eq_true, TextEdit.le_iff, TextEdit.le_iff]
  omega

theorem pairwise_le_mergeSort (es : List TextEdit) :
    (es.mergeSort TextEdit.le).Pairwise fun a b => a.le b = true :=
  List.pairwise_mergeSort TextEdit.le_trans TextEdit.le_total es

/-- Of two valid ranges that are apart, the one that is not behind the other ends before it begins. -/
theorem stop_le_start_of_le {text : List Char} {a b : TextEdit} (hb : b.range.isValidFor text = true)
    (hle : a.le b = true) (h : a.range.IsApartFrom b.range) :
    a.range.stop ≤ b.range.start := by
  simp only [TextRange.isValidFor, Bool.and_eq_true, decide_eq_true_eq] at hb
  rw [TextEdit.le_iff] at hle
  rcases h with h | h
  · exact h
  · -- `b` ends before `a` begins and does not come before it, so both are empty and at one offset
    omega

/-- Sorted edits come in order exactly if all edits are apart from one another. -/
theorem areInOrder_mergeSort_iff {text : List Char} {es : List TextEdit}
    (hvalid : ∀ e ∈ es, e.range.isValidFor text = true) :
    AreInOrder 0 (es.mergeSort TextEdit.le) ↔ es.Pairwise fun a b => a.range.IsApartFrom b.range := by
  have hperm := (List.mergeSort_perm es TextEdit.le).pairwise_iff
    (R := fun a b : TextEdit => a.range.IsApartFrom b.range) TextRange.IsApartFrom.symm
  rw [← hperm]
  constructor
  · rintro ⟨-, hpairs⟩
    exact hpairs.imp Or.inl
  · intro hapart
    refine ⟨fun e _ => Nat.zero_le _, ?_⟩
    apply (hapart.and (pairwise_le_mergeSort es)).imp_of_mem
    intro a b _ hb ⟨h, hle⟩
    exact stop_le_start_of_le (hvalid b (List.mem_mergeSort.mp hb)) hle h

/-- A batch of edits can be applied exactly if each of them is valid and all are apart. -/
theorem applyEdits_isOk_iff {text : String} {es : List TextEdit} :
    (∃ result, applyEdits text es = .ok result) ↔
      (∀ e ∈ es, e.range.isValidFor text.toList = true) ∧
        es.Pairwise fun a b => a.range.IsApartFrom b.range := by
  unfold applyEdits
  constructor
  · rintro ⟨result, h⟩
    cases ha : applyOrdered text.toList 0 none (es.mergeSort TextEdit.le) with
    | error conflict => simp [ha, Except.map] at h
    | ok tail =>
      obtain ⟨hvalid, horder⟩ := areInOrder_of_applyOrdered _ _ _ ha
      have hvalid' : ∀ e ∈ es, e.range.isValidFor text.toList = true :=
        fun e he => hvalid e (List.mem_mergeSort.mpr he)
      exact ⟨hvalid', (areInOrder_mergeSort_iff hvalid').mp horder⟩
  · rintro ⟨hvalid, hapart⟩
    rw [applyOrdered_eq_weave _ 0 none (isBoundary_zero _)
      (fun e he => hvalid e (List.mem_mergeSort.mp he)) ((areInOrder_mergeSort_iff hvalid).mpr hapart)]
    exact ⟨_, rfl⟩

/-! ## Insertions and deletions -/

/-- An edit that inserts or deletes, but does not do both. -/
def TextEdit.IsPlain (e : TextEdit) : Prop := e.range.start = e.range.stop ∨ e.replacement = ""

theorem removedBy_mergeSort (es : List TextEdit) : removedBy (es.mergeSort TextEdit.le) = removedBy es := by
  funext offset
  rw [Bool.eq_iff_iff]
  simp [removedBy]

/-- Of plain edits, the insertions alone insert. -/
theorem insertedBy_eq_filter {es : List TextEdit} (hplain : ∀ e ∈ es, e.IsPlain) (offset : Nat) :
    insertedBy es offset =
      (es.filter fun e => e.range = .empty offset).flatMap fun e => e.replacement.toList := by
  induction es with
  | nil => rfl
  | cons e es ih =>
    have hrest := ih fun f hf => hplain f (List.mem_cons_of_mem e hf)
    rw [insertedBy_cons, hrest]
    by_cases hstart : e.range.start = offset
    · -- an edit at the offset is an insertion there, or has nothing to insert
      rcases hplain e List.mem_cons_self with hempty | hnone
      · have hrange : e.range = .empty offset := by
          cases he : e.range
          simp_all [TextRange.empty]
        simp [hrange, TextRange.empty]
      · by_cases hrange : e.range = .empty offset <;> simp [hrange, hnone]
    · have hrange : e.range ≠ .empty offset := by
        intro h
        simp [h, TextRange.empty] at hstart
      simp [hstart, hrange]

/-- Sorting keeps the order of edits with one range. -/
theorem filter_range_mergeSort (es : List TextEdit) (range : TextRange) :
    (es.mergeSort TextEdit.le).filter (fun e => e.range = range) = es.filter fun e => e.range = range := by
  -- edits with one range compare as equal, so they are a sorted sublist, which a stable sort keeps
  have hsorted : (es.filter fun e => e.range = range).Pairwise fun a b => a.le b = true := by
    apply List.pairwise_of_forall_mem_list
    intro a ha b hb
    have ha' := (List.mem_filter.mp ha).2
    have hb' := (List.mem_filter.mp hb).2
    simp only [decide_eq_true_eq] at ha' hb'
    rw [TextEdit.le_iff, ha', hb']
    exact Or.inr ⟨rfl, Nat.le_refl _⟩
  have hsub : (es.filter fun e => e.range = range).Sublist (es.mergeSort TextEdit.le) :=
    List.sublist_mergeSort TextEdit.le_trans TextEdit.le_total hsorted List.filter_sublist
  have hsub' := hsub.filter fun e => e.range = range
  rw [List.filter_filter] at hsub'
  simp only [Bool.and_self] at hsub'
  -- and sorting makes no more of them
  have hlen := ((List.mergeSort_perm es TextEdit.le).filter fun e => e.range = range).length_eq
  exact (hsub'.eq_of_length hlen.symm).symm

/-- Plain edits that are valid and apart from one another weave what they insert and remove into the text. -/
theorem applyEdits_eq_weave {text : String} {es : List TextEdit}
    (hvalid : ∀ e ∈ es, e.range.isValidFor text.toList = true)
    (hapart : es.Pairwise fun a b => a.range.IsApartFrom b.range) (hplain : ∀ e ∈ es, e.IsPlain) :
    applyEdits text es = .ok (String.ofList (weave (insertedBy es) (removedBy es) 0 text.toList)) := by
  have hinserted : insertedBy (es.mergeSort TextEdit.le) = insertedBy es := by
    funext offset
    rw [insertedBy_eq_filter hplain, insertedBy_eq_filter fun e he => hplain e (List.mem_mergeSort.mp he),
      filter_range_mergeSort]
  unfold applyEdits
  rw [applyOrdered_eq_weave _ 0 none (isBoundary_zero _)
    (fun e he => hvalid e (List.mem_mergeSort.mp he)) ((areInOrder_mergeSort_iff hvalid).mpr hapart),
    hinserted, removedBy_mergeSort, dropBytes_zero]
  rfl

end FieldInjection
