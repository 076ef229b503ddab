import Mathlib
import FieldInjection.Proofs.Edit.Splice
import FieldInjection.Proofs.Lists

/-!
# Edits at one offset

The order in which a batch lists its edits counts only among the insertions at one offset: batches that are
permutations of one another and list those alike lead to one text, or to one conflict (`applyEdits_eq_of_perm`). At
each offset the insertions come first, in the order of the batch, and then the replacement of the range that begins
there, of which there is at most one (`applyEdits_ties`).
-/

namespace FieldInjection

/-- The insertions of a batch at an offset. -/
def insertionsAt (es : List TextEdit) (offset : Nat) : List TextEdit :=
  es.filter fun e => e.range = .empty offset

/-- The edits of a batch that begin at an offset and are no insertions there. -/
def replacementsAt (es : List TextEdit) (offset : Nat) : List TextEdit :=
  es.filter fun e => e.range.start = offset && e.range ≠ .empty offset

section
variable {text : List Char} {es fs : List TextEdit}

/-! ## Two orders of one batch -/

/-- In whatever order a batch is given, its ranges come in one order. -/
theorem map_range_mergeSort_of_perm (hperm : es.Perm fs) :
    (es.mergeSort TextEdit.le).map TextEdit.range = (fs.mergeSort TextEdit.le).map TextEdit.range := by
  have hsorted : ∀ ds : List TextEdit, ((ds.mergeSort TextEdit.le).map TextEdit.range).Pairwise fun s t =>
      s.start < t.start ∨ s.start = t.start ∧ s.stop ≤ t.stop := by
    intro ds
    rw [List.pairwise_map]
    exact (pairwise_le_mergeSort ds).imp TextEdit.le_iff.mp
  have hranges : ((es.mergeSort TextEdit.le).map TextEdit.range).Perm ((fs.mergeSort TextEdit.le).map TextEdit.range) :=
    ((List.mergeSort_perm es _).trans (hperm.trans (List.mergeSort_perm fs _).symm)).map _
  refine hranges.eq_of_pairwise ?_ (hsorted es) (hsorted fs)
  rintro ⟨start, stop⟩ ⟨start', stop'⟩ - - h h'
  rw [TextRange.mk.injEq]
  simp only at h h'
  omega

/-- Whether the pass stops, and for which conflict, depends on the ranges alone. -/
theorem applyOrdered_error_of_map_range {cursor : Nat} {previous : Option TextRange} {conflict : EditConflict}
    (hranges : es.map TextEdit.range = fs.map TextEdit.range)
    (h : applyOrdered text cursor previous es = .error conflict) :
    applyOrdered text cursor previous fs = .error conflict := by
  induction es generalizing fs cursor previous with
  | nil => cases h
  | cons e es ih =>
    cases fs with
    | nil => cases hranges
    | cons f fs =>
      obtain ⟨hhead, htail⟩ := List.cons.inj hranges
      rw [applyOrdered] at h ⊢
      rw [← hhead]
      -- both checks of the pass look at the range only
      by_cases hinvalid : (!e.range.isValidFor text) = true
      · rw [if_pos hinvalid] at h ⊢
        exact h
      · rw [if_neg hinvalid] at h ⊢
        by_cases hbefore : e.range.start < cursor
        · rw [if_pos hbefore] at h ⊢
          exact h
        · rw [if_neg hbefore] at h ⊢
          cases hrest : applyOrdered text e.range.stop (some e.range) es with
          | ok tail => simp [hrest] at h
          | error conflict' =>
            rw [hrest] at h
            cases h
            rw [ih htail hrest]

/-! ## The conflict or the text -/

/-- Where edits are apart from one another, at most one satisfies a condition under which no two are apart. -/
theorem length_filter_le_one {p : TextEdit → Bool} (hapart : es.Pairwise fun a b => a.range.IsApartFrom b.range)
    (hmeet : ∀ a ∈ es, ∀ b ∈ es, p a = true → p b = true → ¬ a.range.IsApartFrom b.range) :
    (es.filter p).length ≤ 1 := by
  have hpairs := hapart.filter p
  cases hfilter : es.filter p with
  | nil => simp
  | cons a rest =>
    cases rest with
    | nil => simp
    | cons b rest =>
      exfalso
      rw [hfilter] at hpairs
      have ha : a ∈ es.filter p := by simp [hfilter]
      have hb : b ∈ es.filter p := by simp [hfilter]
      rw [List.mem_filter] at ha hb
      exact hmeet a ha.1 b hb.1 ha.2 hb.2 ((List.pairwise_cons.mp hpairs).1 b List.mem_cons_self)

/-- Of the edits of a batch that can be applied, at most one has a given range that is not empty. -/
theorem length_filter_range_le_one {source result : String} {range : TextRange} (h : applyEdits source es = .ok result)
    (hrange : range.start ≠ range.stop) : (es.filter fun e => e.range = range).length ≤ 1 := by
  obtain ⟨hvalid, hapart⟩ := applyEdits_isOk_iff.mp ⟨result, h⟩
  refine length_filter_le_one hapart ?_
  intro a ha b _ hra hrb hab
  simp only [decide_eq_true_eq] at hra hrb
  have hle := (isValidFor_iff.mp (hvalid a ha)).1
  rw [hra] at hle
  rw [hra, hrb] at hab
  simp only [TextRange.IsApartFrom] at hab
  omega

/-- A batch that can be applied is sorted alike in whatever order its edits come that keeps the order of insertions. -/
theorem mergeSort_eq_of_perm {source result : String} (h : applyEdits source es = .ok result) (hperm : es.Perm fs)
    (hinsertions : ∀ offset, insertionsAt es offset = insertionsAt fs offset) :
    es.mergeSort TextEdit.le = fs.mergeSort TextEdit.le := by
  refine eq_of_map_eq_of_filter_eq TextEdit.range (map_range_mergeSort_of_perm hperm) ?_
  intro range
  rw [filter_range_mergeSort, filter_range_mergeSort]
  by_cases hempty : range.start = range.stop
  · have hrange : range = .empty range.start := by
      rw [TextRange.empty]
      exact congrArg (TextRange.mk range.start) hempty.symm
    rw [hrange]
    exact hinsertions range.start
  · exact eq_of_perm_of_length_le_one (hperm.filter _) (length_filter_range_le_one h hempty)

end

/-- **Only insertions at one offset have an order**: batches of the same edits that list the insertions at each offset
in the same order have the same outcome, which is one text or one conflict.
-/
theorem applyEdits_eq_of_perm (text : String) {es fs : List TextEdit} (hperm : es.Perm fs)
    (hinsertions : ∀ offset, insertionsAt es offset = insertionsAt fs offset) :
    applyEdits text es = applyEdits text fs := by
  cases h : applyEdits text es with
  | ok result => rw [← h, applyEdits, applyEdits, mergeSort_eq_of_perm h hperm hinsertions]
  | error conflict =>
    have hranges := map_range_mergeSort_of_perm hperm
    unfold applyEdits at h ⊢
    cases hpass : applyOrdered text.toList 0 none (es.mergeSort TextEdit.le) with
    | ok tail => simp [hpass, Except.map] at h
    | error conflict' =>
      rw [hpass] at h
      rw [applyOrdered_error_of_map_range hranges hpass]
      exact h.symm

/-- A replacement, two insertions where it begins, and a deletion in front of them. -/
def mixedBatch : List TextEdit := [⟨⟨1, 2⟩, "X"⟩, .insert 1 "p", .insert 1 "q", .delete ⟨0, 1⟩]

/-- The same edits, with the two insertions in the same order. -/
def shuffledBatch : List TextEdit := [.insert 1 "p", .delete ⟨0, 1⟩, .insert 1 "q", ⟨⟨1, 2⟩, "X"⟩]

theorem applyEdits_eq_of_perm_mixed : mixedBatch.Perm shuffledBatch ∧
    (∀ offset, insertionsAt mixedBatch offset = insertionsAt shuffledBatch offset) ∧
    applyEdits "abc" mixedBatch = applyEdits "abc" shuffledBatch ∧ applyEdits "abc" shuffledBatch = .ok "pqXc" := by
  have hperm : mixedBatch.Perm shuffledBatch := by decide
  have hinsertions : ∀ offset, insertionsAt mixedBatch offset = insertionsAt shuffledBatch offset := by
    intro offset
    have hreplace : (⟨1, 2⟩ : TextRange) ≠ .empty offset := by
      rw [TextRange.empty, ne_eq, TextRange.mk.injEq]
      omega
    have hdelete : (⟨0, 1⟩ : TextRange) ≠ .empty offset := by
      rw [TextRange.empty, ne_eq, TextRange.mk.injEq]
      omega
    simp [insertionsAt, mixedBatch, shuffledBatch, TextEdit.insert, TextEdit.delete, List.filter_cons, hreplace, hdelete]
  have happly : applyEdits "abc" shuffledBatch = .ok "pqXc" := by decide_cbv
  exact ⟨hperm, hinsertions, applyEdits_eq_of_perm "abc" hperm hinsertions, happly⟩

/-! ## What stands at an offset -/

section
variable {es : List TextEdit} {source result : String}

/-- Where no insertion stands behind a replacement that begins at its offset, the insertions at an offset come first. -/
theorem filter_start_eq (h : es.Pairwise fun a b => a.range.start = b.range.start →
      b.range = .empty b.range.start → a.range = .empty a.range.start) (offset : Nat) :
    es.filter (fun e => e.range.start = offset) = insertionsAt es offset ++ replacementsAt es offset := by
  induction es with
  | nil => rfl
  | cons e es ih =>
    obtain ⟨hbehind, hrest⟩ := List.pairwise_cons.mp h
    unfold insertionsAt replacementsAt at ih ⊢
    by_cases hstart : e.range.start = offset
    · by_cases hempty : e.range = .empty offset
      · simp [hempty, TextRange.empty, ih hrest]
      · -- behind a replacement no insertion follows
        have hnone : es.filter (fun f => f.range = .empty offset) = [] := by
          rw [List.filter_eq_nil_iff]
          intro f hf hfempty
          simp only [decide_eq_true_eq] at hfempty
          have hfstart : f.range.start = offset := by rw [hfempty]; rfl
          apply hempty
          rw [← hstart]
          refine hbehind f hf (hstart.trans hfstart.symm) ?_
          rw [hfstart]
          exact hfempty
        rw [List.filter_cons_of_pos (by simpa using hstart), List.filter_cons_of_neg (by simpa using hempty),
          List.filter_cons_of_pos (by simp [hstart, hempty]), ih hrest, hnone]
        rfl
    · have hempty : e.range ≠ .empty offset := fun heq => hstart (by rw [heq]; rfl)
      simp [hstart, hempty, ih hrest]

/-- Sorted edits have their insertions first. -/
theorem pairwise_insertions_first (hvalid : ∀ e ∈ es, e.range.start ≤ e.range.stop) :
    (es.mergeSort TextEdit.le).Pairwise fun a b => a.range.start = b.range.start →
      b.range = .empty b.range.start → a.range = .empty a.range.start := by
  refine (pairwise_le_mergeSort es).imp_of_mem ?_
  intro a b ha _ hle hstart hempty
  have ha' := hvalid a (List.mem_mergeSort.mp ha)
  have hb : b.range.stop = b.range.start := congrArg TextRange.stop hempty
  rw [TextEdit.le_iff] at hle
  cases hra : a.range
  rw [hra] at ha' hle hstart
  simp only [TextRange.empty, TextRange.mk.injEq, true_and] at ha' hle hstart ⊢
  omega

theorem insertionsAt_mergeSort (offset : Nat) :
    insertionsAt (es.mergeSort TextEdit.le) offset = insertionsAt es offset :=
  filter_range_mergeSort es (.empty offset)

theorem length_replacementsAt_le_one (h : applyEdits source es = .ok result) (offset : Nat) :
    (replacementsAt es offset).length ≤ 1 := by
  obtain ⟨hvalid, hapart⟩ := applyEdits_isOk_iff.mp ⟨result, h⟩
  have hlong : ∀ e ∈ es, (decide (e.range.start = offset) && decide (e.range ≠ .empty offset)) = true →
      e.range.start = offset ∧ offset < e.range.stop := by
    intro e he hp
    simp only [Bool.and_eq_true, decide_eq_true_eq] at hp
    have hle := (isValidFor_iff.mp (hvalid e he)).1
    refine ⟨hp.1, ?_⟩
    have hne : e.range.stop ≠ offset := by
      intro hstop
      apply hp.2
      cases hrange : e.range
      simp_all [TextRange.empty]
    omega
  refine length_filter_le_one hapart ?_
  intro a ha b hb hpa hpb hab
  have ha' := hlong a ha hpa
  have hb' := hlong b hb hpb
  simp only [TextRange.IsApartFrom] at hab
  omega

theorem replacementsAt_mergeSort (h : applyEdits source es = .ok result) (offset : Nat) :
    replacementsAt (es.mergeSort TextEdit.le) offset = replacementsAt es offset :=
  (eq_of_perm_of_length_le_one ((List.mergeSort_perm es TextEdit.le).symm.filter _)
    (length_replacementsAt_le_one h offset)).symm

/-- A batch that can be applied puts at each offset first its insertions there. -/
theorem insertedBy_mergeSort (h : applyEdits source es = .ok result) (offset : Nat) :
    insertedBy (es.mergeSort TextEdit.le) offset =
      (insertionsAt es offset ++ replacementsAt es offset).flatMap fun e => e.replacement.toList := by
  have hvalid := (applyEdits_isOk_iff.mp ⟨result, h⟩).1
  have hfirst := pairwise_insertions_first fun e he => (isValidFor_iff.mp (hvalid e he)).1
  rw [insertedBy, filter_start_eq hfirst, insertionsAt_mergeSort, replacementsAt_mergeSort h]

theorem eq_weave_of_applyEdits (h : applyEdits source es = .ok result) : result =
    String.ofList (weave (insertedBy (es.mergeSort TextEdit.le)) (removedBy es) 0 source.toList) := by
  obtain ⟨hvalid, hapart⟩ := applyEdits_isOk_iff.mp ⟨result, h⟩
  rw [applyEdits, applyOrdered_eq_weave _ 0 none (isBoundary_zero _)
    (fun e he => hvalid e (List.mem_mergeSort.mp he)) ((areInOrder_mergeSort_iff hvalid).mpr hapart),
    removedBy_mergeSort, dropBytes_zero] at h
  cases h
  rfl

end

/-- **The order at an offset**: the text that a batch leads to has at each offset its insertions there, in the order
of the batch, and then the replacement of the one range that may begin there. So edits at one offset are emitted in
the order of the batch, replacements of ranges too, unless the batch lists an insertion behind a replacement that
begins at the same offset.
-/
theorem applyEdits_ties {text result : String} {es : List TextEdit} (h : applyEdits text es = .ok result) :
    (result = String.ofList (weave
        (fun offset => (insertionsAt es offset ++ replacementsAt es offset).flatMap fun e => e.replacement.toList)
        (removedBy es) 0 text.toList) ∧
      ∀ offset, (replacementsAt es offset).length ≤ 1) ∧
    ((es.Pairwise fun a b => a.range.start = b.range.start →
        b.range = .empty b.range.start → a.range = .empty a.range.start) →
      result = String.ofList (weave (insertedBy es) (removedBy es) 0 text.toList)) := by
  have hresult := eq_weave_of_applyEdits h
  rw [funext (insertedBy_mergeSort h)] at hresult
  refine ⟨⟨hresult, length_replacementsAt_le_one h⟩, ?_⟩
  intro hbatch
  have hinserted : insertedBy es =
      fun offset => (insertionsAt es offset ++ replacementsAt es offset).flatMap fun e => e.replacement.toList := by
    funext offset
    rw [insertedBy, filter_start_eq hbatch]
  rw [hinserted]
  exact hresult

/-- Two insertions, and behind them the replacement of a range that begins at their offset. -/
def insertionsFirstBatch : List TextEdit := [.insert 0 "Y", .insert 0 "Z", ⟨⟨0, 1⟩, "X"⟩]

theorem applyEdits_ties_insertionsFirst : applyEdits "ab" insertionsFirstBatch = .ok "YZXb" ∧
    "YZXb" = String.ofList
      (weave (insertedBy insertionsFirstBatch) (removedBy insertionsFirstBatch) 0 "ab".toList) := by
  have h : applyEdits "ab" insertionsFirstBatch = .ok "YZXb" := by decide_cbv
  have hbatch : insertionsFirstBatch.Pairwise fun a b => a.range.start = b.range.start →
      b.range = .empty b.range.start → a.range = .empty a.range.start := by
    simp [insertionsFirstBatch, TextEdit.insert, TextRange.empty]
  exact ⟨h, (applyEdits_ties h).2 hbatch⟩

/-- The replacement of a range, and behind it an insertion where the range begins. -/
def insertionLastBatch : List TextEdit := [⟨⟨0, 1⟩, "X"⟩, .insert 0 "Y"]

/-- The insertion is emitted first, although the batch lists it last; in the order of the batch the text would be
another one. -/
theorem last_insertion_emitted_first : applyEdits "ab" insertionLastBatch = .ok "YXb" ∧
    String.ofList (weave (insertedBy insertionLastBatch) (removedBy insertionLastBatch) 0 "ab".toList) = "XYb" := by
  constructor <;> decide_cbv

end FieldInjection
