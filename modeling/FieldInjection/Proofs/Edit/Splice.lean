import Mathlib.Data.List.Permutation
import FieldInjection.Proofs.Edit.Weave

/-!
# One pass and one edit at a time

`applyEdits` builds the new text in one pass from front to back. That is the text to which the edits lead when they are
spliced in one by one, the last one first, so that no splice moves what a later one replaces (`spliceFromBack`). The
pass stops at the first edit that is not valid or begins before the one in front of it ended, and the conflict it
reports is one of the batch (`EditConflict.IsGenuine`). Whatever it cuts out of the text lies between two boundaries
(`applyOrderedStrict_eq`). `applyEdits_meets_reference` puts the three together.
-/

namespace FieldInjection

/-! ## The reference -/

/-- The text with the range of an edit replaced. -/
def splice (text : List Char) (e : TextEdit) : List Char :=
  takeBytes text e.range.start ++ e.replacement.toList ++ dropBytes text e.range.stop

/-- Whether an edit of a batch, which comes with its place in the batch, is not before another one: by start, then by
end, then by place. -/
def isNotBefore (a b : TextEdit × Nat) : Bool :=
  if a.1.range.start ≠ b.1.range.start then b.1.range.start < a.1.range.start
  else if a.1.range.stop ≠ b.1.range.stop then b.1.range.stop < a.1.range.stop
  else b.2 ≤ a.2

/-- The edits of a batch, the last one first. -/
def fromBack (es : List TextEdit) : List TextEdit := (es.zipIdx.mergeSort isNotBefore).map Prod.fst

/-- The text after the edits of a batch have been spliced in one by one, the last one first. -/
def spliceFromBack (text : List Char) (es : List TextEdit) : List Char := (fromBack es).foldl splice text

section
variable {text : List Char} {es : List TextEdit} {a b e : TextEdit} {cursor : Nat}

theorem isNotBefore_iff {x y : TextEdit × Nat} : isNotBefore x y = true ↔
    y.1.range.start < x.1.range.start ∨ y.1.range.start = x.1.range.start ∧
      (y.1.range.stop < x.1.range.stop ∨ y.1.range.stop = x.1.range.stop ∧ y.2 ≤ x.2) := by
  unfold isNotBefore
  split
  · simp only [decide_eq_true_eq]
    omega
  · split
    · simp only [decide_eq_true_eq]
      omega
    · simp only [decide_eq_true_eq]
      omega

/-- It is the order in which a stable sort keeps the edits, the other way round. -/
theorem isNotBefore_eq (x y : TextEdit × Nat) : isNotBefore x y = List.zipIdxLE TextEdit.le y x := by
  rw [Bool.eq_iff_iff, isNotBefore_iff, List.zipIdxLE]
  by_cases hle : y.1.le x.1 = true
  · rw [if_pos hle]
    by_cases hge : x.1.le y.1 = true
    · rw [if_pos hge, decide_eq_true_eq]
      rw [TextEdit.le_iff] at hle hge
      omega
    · rw [if_neg hge]
      rw [TextEdit.le_iff] at hle hge
      simp only [iff_true]
      omega
  · rw [if_neg hle]
    rw [TextEdit.le_iff] at hle
    simp only [Bool.false_eq_true, iff_false]
    omega

/-- At one place of a batch stands one edit. -/
theorem eq_of_mem_zipIdx {x y : TextEdit × Nat} (hx : x ∈ es.zipIdx) (hy : y ∈ es.zipIdx) (h : x.2 = y.2) : x = y := by
  rw [List.mem_zipIdx_iff_getElem?] at hx hy
  rw [h, hy] at hx
  exact Prod.ext (Option.some.inj hx).symm h

/-- From the back, the edits come in the order in which they are applied, the other way round. -/
theorem fromBack_eq (es : List TextEdit) : fromBack es = (es.mergeSort TextEdit.le).reverse := by
  have htrans := List.zipIdxLE_trans TextEdit.le_trans
  have htotal := List.zipIdxLE_total TextEdit.le_total
  have hsorted : (es.zipIdx.mergeSort isNotBefore).Pairwise fun x y => isNotBefore x y = true := by
    refine List.pairwise_mergeSort ?_ ?_ _
    · intro x y z hxy hyz
      rw [isNotBefore_eq] at *
      exact htrans z y x hyz hxy
    · intro x y
      rw [isNotBefore_eq, isNotBefore_eq]
      exact htotal y x
  have hstable : (es.zipIdx.mergeSort (List.zipIdxLE TextEdit.le)).reverse.Pairwise
      fun x y => isNotBefore x y = true := by
    rw [List.pairwise_reverse]
    refine (List.pairwise_mergeSort htrans htotal _).imp ?_
    intro x y hxy
    rw [isNotBefore_eq]
    exact hxy
  -- two orders of the same edits, and none of them is both before and behind another one
  have hsame : es.zipIdx.mergeSort isNotBefore = (es.zipIdx.mergeSort (List.zipIdxLE TextEdit.le)).reverse := by
    refine List.Perm.eq_of_pairwise ?_ hsorted hstable ?_
    · intro x y hx hy hxy hyx
      rw [isNotBefore_iff] at hxy hyx
      refine eq_of_mem_zipIdx (List.mem_mergeSort.mp hx) (List.mem_mergeSort.mp (List.mem_reverse.mp hy)) ?_
      omega
    · exact (List.mergeSort_perm _ _).trans ((List.mergeSort_perm _ _).symm.trans (List.reverse_perm _).symm)
  rw [fromBack, hsame, List.map_reverse, List.mergeSort_zipIdx]

/-! ## The result -/

theorem isValidFor_iff {range : TextRange} : range.isValidFor text = true ↔
    range.start ≤ range.stop ∧ isBoundary text range.start = true ∧ isBoundary text range.stop = true := by
  simp [TextRange.isValidFor, and_assoc]

/-- Cutting at a boundary and then before it is cutting before it. -/
theorem takeBytes_takeBytes_append {start stop : Nat} (hstart : isBoundary text start = true)
    (hstop : isBoundary text stop = true) (hle : start ≤ stop) (tail : List Char) :
    takeBytes (takeBytes text stop ++ tail) start = takeBytes text start := by
  obtain ⟨pre, mid, post, rfl, rfl, hmid⟩ := exists_parts hstart hstop hle
  have hstop' : stop = byteLength (pre ++ mid) := by
    rw [byteLength_append]
    omega
  rw [hstop', ← List.append_assoc, takeBytes_byteLength_append, List.append_assoc pre mid tail,
    takeBytes_byteLength_append, List.append_assoc pre mid post, takeBytes_byteLength_append]

theorem takeBytes_eq_take_append_slice {start stop : Nat} (hstart : isBoundary text start = true)
    (hstop : isBoundary text stop = true) (hle : start ≤ stop) :
    takeBytes text stop = takeBytes text start ++ sliceBytes text start stop := by
  obtain ⟨pre, mid, post, rfl, rfl, hmid⟩ := exists_parts hstart hstop hle
  have hstop' : stop = byteLength (pre ++ mid) := by
    rw [byteLength_append]
    omega
  rw [sliceBytes, takeBytes_byteLength_append, dropBytes_byteLength_append, ← hmid, takeBytes_byteLength_append,
    hstop', ← List.append_assoc, takeBytes_byteLength_append]

/-- Splicing in edits that come in order leaves what stands before the cursor, and behind it makes what the pass
makes of the rest. -/
theorem foldr_splice {result : List Char} (previous : Option TextRange) (hcursor : isBoundary text cursor = true)
    (h : applyOrdered text cursor previous es = .ok result) :
    es.foldr (fun e spliced => splice spliced e) text = takeBytes text cursor ++ result := by
  induction es generalizing cursor previous result with
  | nil =>
    cases h
    exact (take_append_drop text cursor).symm
  | cons e es ih =>
    obtain ⟨hvalid, horder⟩ := areInOrder_of_applyOrdered _ _ _ h
    have hle := (areInOrder_cons horder).1
    obtain ⟨hrange, hstart, hstop⟩ := isValidFor_iff.mp (hvalid e List.mem_cons_self)
    rw [applyOrdered, hvalid e List.mem_cons_self, if_neg (by simp), if_neg (by omega)] at h
    -- the edits behind are spliced in first, and they leave all that this one may take away
    cases hrest : applyOrdered text e.range.stop (some e.range) es with
    | error conflict => simp [hrest] at h
    | ok tail =>
      rw [hrest] at h
      cases h
      have hbehind : dropBytes (takeBytes text e.range.stop ++ tail) e.range.stop = tail := by
        have hlength := byteLength_takeBytes hstop
        calc dropBytes (takeBytes text e.range.stop ++ tail) e.range.stop
            = dropBytes (takeBytes text e.range.stop ++ tail) (byteLength (takeBytes text e.range.stop)) := by
              rw [hlength]
          _ = tail := dropBytes_byteLength_append _ _
      rw [List.foldr_cons, ih _ hstop hrest, splice, hbehind, takeBytes_takeBytes_append hstart hstop hrange,
        takeBytes_eq_take_append_slice hcursor hstart hle]
      simp

/-- A batch that can be applied leads to the text that the reference gives. -/
theorem eq_spliceFromBack {source result : String} (h : applyEdits source es = .ok result) :
    result = String.ofList (spliceFromBack source.toList es) := by
  unfold applyEdits at h
  cases hordered : applyOrdered source.toList 0 none (es.mergeSort TextEdit.le) with
  | error conflict => simp [hordered, Except.map] at h
  | ok tail =>
    rw [hordered] at h
    cases h
    have hspliced := foldr_splice none (isBoundary_zero _) hordered
    rw [spliceFromBack, fromBack_eq, List.foldl_reverse, hspliced]
    cases source.toList <;> rfl

/-! ## The stretches that are cut out -/

/-- What stands between two offsets, if it can be cut out: if the offsets are in order and both are boundaries of the
text. -/
def sliceBytes? (text : List Char) (start stop : Nat) : Option (List Char) :=
  if (TextRange.mk start stop).isValidFor text then some (sliceBytes text start stop) else none

/-- The pass of `applyOrdered`, which ends in nothing as soon as a stretch cannot be cut out. -/
def applyOrderedStrict (text : List Char) (cursor : Nat) (previous : Option TextRange) :
    List TextEdit → Option (Except EditConflict (List Char))
  | [] => (sliceBytes? text cursor (byteLength text)).map .ok
  | edit :: rest =>
    if !edit.range.isValidFor text then
      some (.error (.invalidRange edit.range (byteLength text)))
    else if edit.range.start < cursor then
      some (.error (.overlap (previous.getD edit.range) edit.range))
    else do
      let before ← sliceBytes? text cursor edit.range.start
      let outcome ← applyOrderedStrict text edit.range.stop (some edit.range) rest
      return outcome.map fun tail => before ++ edit.replacement.toList ++ tail

theorem isBoundary_byteLength (cs : List Char) : isBoundary cs (byteLength cs) = true := by
  have h := isBoundary_byteLength_append cs []
  rwa [List.append_nil] at h

theorem sliceBytes?_eq_some {start stop : Nat} (hstart : isBoundary text start = true)
    (hstop : isBoundary text stop = true) (hle : start ≤ stop) :
    sliceBytes? text start stop = some (sliceBytes text start stop) :=
  if_pos (isValidFor_iff.mpr ⟨hle, hstart, hstop⟩)

/-- Every stretch that the pass cuts out of the text can be cut out. -/
theorem applyOrderedStrict_eq (previous : Option TextRange) (hcursor : isBoundary text cursor = true) :
    applyOrderedStrict text cursor previous es = some (applyOrdered text cursor previous es) := by
  induction es generalizing cursor previous with
  | nil =>
    have hrest := (dropBytes_eq_slice_append hcursor (isBoundary_byteLength text) (le_of_isBoundary hcursor)).1
    have hnothing : dropBytes text (byteLength text) = [] := by
      have h := dropBytes_byteLength_append text []
      rwa [List.append_nil] at h
    rw [hnothing, List.append_nil] at hrest
    rw [applyOrderedStrict, sliceBytes?_eq_some hcursor (isBoundary_byteLength text) (le_of_isBoundary hcursor),
      ← hrest]
    rfl
  | cons e es ih =>
    rw [applyOrderedStrict, applyOrdered]
    by_cases hvalid : e.range.isValidFor text = true
    · obtain ⟨-, hstart, hstop⟩ := isValidFor_iff.mp hvalid
      by_cases hle : e.range.start < cursor
      · simp [hvalid, hle]
      · rw [hvalid, if_neg (by simp), if_neg hle, if_neg (by simp), if_neg hle,
          sliceBytes?_eq_some hcursor hstart (by omega), ih _ hstop]
        cases applyOrdered text e.range.stop (some e.range) es <;> rfl
    · simp [hvalid]

/-! ## Conflicts -/

/-- Two edits stand in a batch at different places. -/
def AreTwoOf (es : List TextEdit) (a b : TextEdit) : Prop := [a, b].Sublist es ∨ [b, a].Sublist es

theorem AreTwoOf.of_perm {ds : List TextEdit} (hperm : ds.Perm es) (h : [a, b].Sublist ds) : AreTwoOf es a b := by
  obtain ⟨two, htwo, hsub⟩ := (hperm.subperm_left).mp h.subperm
  rcases List.perm_pair.mp htwo with rfl | rfl
  · exact Or.inl hsub
  · exact Or.inr hsub

/-- A conflict that a batch of edits has for a text: an edit whose range is not valid, or two edits that are not apart,
the first of which is not behind the second. -/
def EditConflict.IsGenuine (text : List Char) (es : List TextEdit) : EditConflict → Prop
  | .invalidRange range size =>
    (∃ e ∈ es, e.range = range) ∧ range.isValidFor text = false ∧ size = byteLength text
  | .overlap first second =>
    ∃ a b, AreTwoOf es a b ∧ a.range = first ∧ b.range = second ∧ a.le b = true ∧ ¬ first.IsApartFrom second

/-- Edits that come in a row may stop the pass behind one of them. -/
theorem isGenuine_of_error {conflict : EditConflict} (hsorted : (e :: es).Pairwise fun a b => a.le b = true)
    (h : applyOrdered text e.range.stop (some e.range) es = .error conflict) : conflict.IsGenuine text (e :: es) := by
  induction es generalizing e with
  | nil => cases h
  | cons f es ih =>
    obtain ⟨hbehind, hrest⟩ := List.pairwise_cons.mp hsorted
    have hle := hbehind f List.mem_cons_self
    rw [applyOrdered] at h
    by_cases hvalid : f.range.isValidFor text = true
    · rw [hvalid, if_neg (by simp)] at h
      by_cases hbefore : f.range.start < e.range.stop
      · rw [if_pos hbefore] at h
        cases h
        refine ⟨e, f, Or.inl (by simp), rfl, rfl, hle, ?_⟩
        intro hapart
        have := stop_le_start_of_le hvalid hle hapart
        omega
      · rw [if_neg hbefore] at h
        cases htail : applyOrdered text f.range.stop (some f.range) es with
        | ok tail => simp [htail] at h
        | error conflict' =>
          rw [htail] at h
          cases h
          -- what is in conflict behind the first edit is so in the whole row
          have hgenuine := ih hrest htail
          cases conflict with
          | invalidRange range size =>
            obtain ⟨⟨g, hg, hrange⟩, hwrong⟩ := hgenuine
            exact ⟨⟨g, List.mem_cons_of_mem e hg, hrange⟩, hwrong⟩
          | overlap first second =>
            obtain ⟨a, b, htwo, hrest⟩ := hgenuine
            exact ⟨a, b, htwo.imp (List.Sublist.cons e) (List.Sublist.cons e), hrest⟩
    · rw [if_pos (by simpa using hvalid)] at h
      cases h
      exact ⟨⟨f, by simp, rfl⟩, by simpa using hvalid, rfl⟩

theorem EditConflict.IsGenuine.of_perm {ds : List TextEdit} (hperm : ds.Perm es) {conflict : EditConflict}
    (h : conflict.IsGenuine text ds) : conflict.IsGenuine text es := by
  cases conflict with
  | invalidRange range size =>
    obtain ⟨⟨e, he, hrange⟩, hwrong⟩ := h
    exact ⟨⟨e, hperm.mem_iff.mp he, hrange⟩, hwrong⟩
  | overlap first second =>
    obtain ⟨a, b, htwo | htwo, hrest⟩ := h
    · exact ⟨a, b, .of_perm hperm htwo, hrest⟩
    · exact ⟨a, b, (AreTwoOf.of_perm hperm htwo).symm, hrest⟩

/-- A batch that cannot be applied has the conflict that is reported. -/
theorem isGenuine_of_applyEdits {source : String} {conflict : EditConflict}
    (h : applyEdits source es = .error conflict) : conflict.IsGenuine source.toList es := by
  have hsorted := pairwise_le_mergeSort es
  have hperm := List.mergeSort_perm es TextEdit.le
  unfold applyEdits at h
  generalize es.mergeSort TextEdit.le = ds at h hsorted hperm
  refine EditConflict.IsGenuine.of_perm hperm ?_
  cases ds with
  | nil => cases h
  | cons e ds =>
    rw [applyOrdered] at h
    by_cases hvalid : e.range.isValidFor source.toList = true
    · rw [hvalid, if_neg (by simp), if_neg (Nat.not_lt_zero _)] at h
      cases htail : applyOrdered source.toList e.range.stop (some e.range) ds with
      | ok tail => simp [htail, Except.map] at h
      | error conflict' =>
        rw [htail] at h
        cases h
        exact isGenuine_of_error hsorted htail
    · rw [if_pos (by simpa using hvalid)] at h
      cases h
      exact ⟨⟨e, List.mem_cons_self, rfl⟩, by simpa using hvalid, rfl⟩

end

/--
**One pass does what the reference does**: it succeeds exactly if every range is valid for the text and every two edits
are apart, its result is then the text into which the edits have been spliced from the back, it cuts out no stretch
that cannot be cut out, and a conflict that it reports is one of the batch.
-/
theorem applyEdits_meets_reference (text : String) (es : List TextEdit) :
    ((∃ result, applyEdits text es = .ok result) ↔
      (∀ e ∈ es, e.range.start ≤ e.range.stop ∧ e.range.stop ≤ byteLength text.toList ∧
          isBoundary text.toList e.range.start = true ∧ isBoundary text.toList e.range.stop = true) ∧
        es.Pairwise fun a b => a.range.IsApartFrom b.range) ∧
    (match applyEdits text es with
      | .ok result => result = String.ofList (spliceFromBack text.toList es)
      | .error conflict => conflict.IsGenuine text.toList es) ∧
    (applyOrderedStrict text.toList 0 none (es.mergeSort TextEdit.le)).map (Except.map String.ofList) =
      some (applyEdits text es) := by
  refine ⟨?_, ?_, ?_⟩
  · rw [applyEdits_isOk_iff]
    refine and_congr_left fun _ => forall₂_congr fun e _ => ?_
    rw [isValidFor_iff]
    constructor
    · rintro ⟨hle, hstart, hstop⟩
      exact ⟨hle, le_of_isBoundary hstop, hstart, hstop⟩
    · rintro ⟨hle, -, hstart, hstop⟩
      exact ⟨hle, hstart, hstop⟩
  · cases hresult : applyEdits text es with
    | ok result => exact eq_spliceFromBack hresult
    | error conflict => exact isGenuine_of_applyEdits hresult
  · rw [applyOrderedStrict_eq none (isBoundary_zero _)]
    rfl

end FieldInjection
