import FieldInjection.Edit.Log

/-!
# How logs grow

A log grows at its end, and a log that has grown can be cut back to what it was. What a log says of a file
is the sum of what its parts say, and all spellings of a path are one file. The files of a log are those of its
edits, each under one spelling.
-/

namespace FieldInjection

namespace Path

theorem same_iff {p q : Path} : p.same q = true ↔ p.components = q.components := by
  simp [same]

@[simp] theorem same_self (p : Path) : p.same p = true := by
  simp [same]

theorem same_comm (p q : Path) : p.same q = q.same p := by
  rw [Bool.eq_iff_iff, same_iff, same_iff]
  exact eq_comm

/-- A spelling of a path can take the place of another one. -/
theorem same_congr {p q : Path} (h : p.same q = true) (x : Path) : p.same x = q.same x := by
  rw [Bool.eq_iff_iff, same_iff, same_iff, same_iff.mp h]

theorem eq_of_component_compare {a b : Component} (h : a.compare b = .eq) : a = b := by
  cases a <;> cases b <;> simp [Component.compare, Component.rank] at h ⊢
  · exact h

theorem eq_of_compareComponents {as bs : List Component} (h : compareComponents as bs = .eq) : as = bs := by
  induction as generalizing bs with
  | nil =>
    cases bs with
    | nil => rfl
    | cons b bs => cases h
  | cons a as ih =>
    cases bs with
    | nil => cases h
    | cons b bs =>
      rw [compareComponents, Ordering.then_eq_eq] at h
      rw [eq_of_component_compare h.1, ih h.2]

/-- Paths that compare as equal are spellings of one path. -/
theorem same_of_compare {p q : Path} (h : p.compare q = .eq) : p.same q = true :=
  same_iff.mpr (eq_of_compareComponents h)

end Path

namespace EditLog

/-- The log with some more edits at its end. -/
def extend (log : EditLog) (es : List PlannedEdit) : EditLog := ⟨log.edits ++ es⟩

@[simp] theorem edits_empty : EditLog.empty.edits = [] := rfl

@[simp] theorem edits_extend (log : EditLog) (es : List PlannedEdit) :
    (log.extend es).edits = log.edits ++ es := rfl

@[simp] theorem extend_nil (log : EditLog) : log.extend [] = log := by
  simp [extend]

@[simp] theorem extend_extend (log : EditLog) (es fs : List PlannedEdit) :
    (log.extend es).extend fs = log.extend (es ++ fs) := by
  simp [extend]

@[simp] theorem empty_extend (es : List PlannedEdit) : (EditLog.empty.extend es).edits = es := rfl

theorem push_eq_extend (log : EditLog) (e : PlannedEdit) : log.push e = log.extend [e] := rfl

theorem foldl_push (es : List PlannedEdit) (log : EditLog) :
    es.foldl push log = log.extend es := by
  induction es generalizing log with
  | nil => simp
  | cons e es ih => simp [ih, push_eq_extend]

/-- Whatever was added behind a length is gone once the log is cut back to it. -/
@[simp] theorem truncate_extend (log : EditLog) (es : List PlannedEdit) :
    (log.extend es).truncate log.size = log := by
  simp [truncate, extend, size]

@[simp] theorem truncate_size (log : EditLog) : log.truncate log.size = log := by
  simp [truncate, size]

theorem addsImport_extend (log : EditLog) (es : List PlannedEdit) (file : Path)
    (moduleName name : String) :
    (log.extend es).addsImport file moduleName name =
      (log.addsImport file moduleName name || (⟨es⟩ : EditLog).addsImport file moduleName name) := by
  simp [addsImport]

theorem forFile_congr (log : EditLog) {p q : Path} (h : p.same q = true) : log.forFile p = log.forFile q := by
  unfold forFile
  apply List.filter_congr
  intro e _
  rw [Path.same_comm, Path.same_congr h, Path.same_comm]

theorem apply_congr (log : EditLog) {p q : Path} (h : p.same q = true) (text : String) :
    log.apply p text = log.apply q text := by
  rw [apply, apply, forFile_congr log h]

/-! ## The files of a log -/

theorem mem_insertFile {f file : Path} {fs : List Path} (h : f ∈ insertFile file fs) :
    f = file ∨ f ∈ fs := by
  induction fs with
  | nil => exact Or.inl (List.mem_singleton.mp h)
  | cons g fs ih =>
    unfold insertFile at h
    split at h
    · exact List.mem_cons.mp h
    · rcases List.mem_cons.mp h with rfl | h
      · exact Or.inl rfl
      · exact Or.inr (List.mem_cons_of_mem g h)
    · rcases List.mem_cons.mp h with rfl | h
      · exact Or.inr List.mem_cons_self
      · rcases ih h with rfl | h
        · exact Or.inl rfl
        · exact Or.inr (List.mem_cons_of_mem g h)

theorem self_mem_insertFile (file : Path) (fs : List Path) : file ∈ insertFile file fs := by
  induction fs with
  | nil => exact List.mem_singleton.mpr rfl
  | cons g fs ih =>
    unfold insertFile
    split
    · exact List.mem_cons_self
    · exact List.mem_cons_self
    · exact List.mem_cons_of_mem g ih

/-- Inserting a file keeps the others, one perhaps in another spelling. -/
theorem exists_mem_insertFile (file : Path) {g : Path} {fs : List Path} (hg : g ∈ fs) :
    ∃ f ∈ insertFile file fs, f.same g = true := by
  induction fs with
  | nil => cases hg
  | cons f fs ih =>
    unfold insertFile
    split
    · exact ⟨g, List.mem_cons_of_mem file hg, Path.same_self g⟩
    · -- `f` is already a spelling of the file, and the new spelling takes its place
      rename_i hcompare
      rcases List.mem_cons.mp hg with rfl | hg
      · exact ⟨file, List.mem_cons_self, Path.same_of_compare hcompare⟩
      · exact ⟨g, List.mem_cons_of_mem file hg, Path.same_self g⟩
    · rcases List.mem_cons.mp hg with rfl | hg
      · exact ⟨g, List.mem_cons_self, Path.same_self g⟩
      · obtain ⟨f', hf', hsame⟩ := ih hg
        exact ⟨f', List.mem_cons_of_mem f hf', hsame⟩

theorem mem_foldl_insertFile {f : Path} {es : List PlannedEdit} {fs : List Path}
    (h : f ∈ es.foldl (fun fs e => insertFile e.file fs) fs) : f ∈ fs ∨ ∃ e ∈ es, e.file = f := by
  induction es generalizing fs with
  | nil => exact Or.inl h
  | cons e es ih =>
    rcases ih h with h | ⟨e', he', hfile⟩
    · rcases mem_insertFile h with rfl | h
      · exact Or.inr ⟨e, List.mem_cons_self, rfl⟩
      · exact Or.inl h
    · exact Or.inr ⟨e', List.mem_cons_of_mem e he', hfile⟩

theorem exists_mem_foldl_insertFile {g : Path} (es : List PlannedEdit) {fs : List Path} (hg : g ∈ fs) :
    ∃ f ∈ es.foldl (fun fs e => insertFile e.file fs) fs, f.same g = true := by
  induction es generalizing fs g with
  | nil => exact ⟨g, hg, Path.same_self g⟩
  | cons e es ih =>
    obtain ⟨f, hf, hsame⟩ := exists_mem_insertFile e.file hg
    obtain ⟨f', hf', hsame'⟩ := ih hf
    refine ⟨f', hf', ?_⟩
    rw [Path.same_congr hsame', hsame]

/-- A file of a log has an edit in it. -/
theorem exists_edit_of_mem_files {log : EditLog} {f : Path} (h : f ∈ log.files) :
    ∃ e ∈ log.edits, e.file = f := by
  rcases mem_foldl_insertFile h with h | h
  · cases h
  · exact h

/-- The file of an edit is among the files of the log, in some spelling. -/
theorem exists_mem_files {log : EditLog} {e : PlannedEdit} (he : e ∈ log.edits) :
    ∃ f ∈ log.files, f.same e.file = true := by
  -- the file is inserted with the edit and survives the insertions behind it
  obtain ⟨front, back, hsplit⟩ := List.append_of_mem he
  unfold files
  rw [hsplit, List.foldl_append, List.foldl_cons]
  exact exists_mem_foldl_insertFile back (self_mem_insertFile e.file _)

end EditLog

end FieldInjection
