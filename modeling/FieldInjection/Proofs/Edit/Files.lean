import Mathlib.Data.List.Induction
import FieldInjection.Proofs.Edit.Growth
import FieldInjection.Proofs.Path.Order

/-!
# The order of a log's files

The files of a log stand in path order, and none of them twice (`pairwise_files`). Each stands there in the spelling of
its last edit (`mem_files_iff`), so logs that hold the same edits of each file have the same files (`files_congr`).
-/

namespace FieldInjection.EditLog

theorem pairwise_insertFile (file : Path) {fs : List Path} (h : fs.Pairwise fun f g => f.compare g = .lt) :
    (insertFile file fs).Pairwise fun f g => f.compare g = .lt := by
  induction fs with
  | nil => exact List.pairwise_singleton _ file
  | cons f fs ih =>
    rw [List.pairwise_cons] at h
    obtain ⟨hf, hfs⟩ := h
    unfold insertFile
    split
    · rename_i hlt
      have hall : ∀ g ∈ f :: fs, file.compare g = .lt := by
        intro g hg
        rcases List.mem_cons.mp hg with rfl | hg
        · exact hlt
        · exact Std.TransCmp.lt_trans hlt (hf g hg)
      exact List.pairwise_cons.mpr ⟨hall, List.pairwise_cons.mpr ⟨hf, hfs⟩⟩
    · -- another spelling of `f` stands where `f` stood
      rename_i heq
      have hall : ∀ g ∈ fs, file.compare g = .lt :=
        fun g hg => Std.TransCmp.lt_of_eq_of_lt heq (hf g hg)
      exact List.pairwise_cons.mpr ⟨hall, hfs⟩
    · rename_i hgt
      have hall : ∀ g ∈ insertFile file fs, f.compare g = .lt := by
        intro g hg
        rcases mem_insertFile hg with rfl | hg
        · exact Std.OrientedCmp.gt_iff_lt.mp hgt
        · exact hf g hg
      exact List.pairwise_cons.mpr ⟨hall, ih hfs⟩

/-- The files of a log stand in path order, each once. -/
theorem pairwise_files (log : EditLog) : log.files.Pairwise fun f g => f.compare g = .lt := by
  have hall : ∀ (es : List PlannedEdit) (fs : List Path), (fs.Pairwise fun f g => f.compare g = .lt) →
      (es.foldl (fun fs e => insertFile e.file fs) fs).Pairwise fun f g => f.compare g = .lt := by
    intro es
    induction es with
    | nil => exact fun fs h => h
    | cons e es ih => exact fun fs h => ih _ (pairwise_insertFile e.file h)
  exact hall log.edits [] List.Pairwise.nil

/-- The files of a log are listed without repetition. -/
theorem nodup_files (log : EditLog) : log.files.Nodup := by
  refine (pairwise_files log).imp ?_
  rintro f _ hlt rfl
  rw [Path.compare_eq_iff.mpr (Path.same_self f)] at hlt
  cases hlt

/-! ## Spellings -/

/-- A file that is inserted takes the place of its other spellings. -/
theorem mem_insertFile_iff (file : Path) {f : Path} {fs : List Path} (h : fs.Pairwise fun f g => f.compare g = .lt) :
    f ∈ insertFile file fs ↔ f = file ∨ f ∈ fs ∧ file.same f = false := by
  induction fs with
  | nil => simp [insertFile]
  | cons g fs ih =>
    obtain ⟨hg, hfs⟩ := List.pairwise_cons.mp h
    have hother : ∀ {f' : Path}, file.compare f' = .lt → file.same f' = false := by
      intro f' hlt
      rw [← Bool.not_eq_true, ← Path.compare_eq_iff, hlt]
      simp
    unfold insertFile
    split
    · -- the file comes before all others, so it is none of them
      rename_i hlt
      rw [List.mem_cons]
      refine or_congr_right (and_iff_left_of_imp fun hf => hother ?_).symm
      rcases List.mem_cons.mp hf with rfl | hf
      · exact hlt
      · exact Std.TransCmp.lt_trans hlt (hg f hf)
    · rename_i heq
      rw [List.mem_cons, List.mem_cons]
      refine or_congr_right ⟨fun hf => ⟨Or.inr hf, hother (Std.TransCmp.lt_of_eq_of_lt heq (hg f hf))⟩, ?_⟩
      rintro ⟨rfl | hf, hsame⟩
      · rw [Path.compare_eq_iff.mp heq] at hsame
        cases hsame
      · exact hf
    · rename_i hgt
      have hsame : file.same g = false := by
        rw [← Bool.not_eq_true, ← Path.compare_eq_iff, hgt]
        simp
      rw [List.mem_cons, ih hfs, List.mem_cons]
      constructor
      · rintro (rfl | rfl | ⟨hf, hfsame⟩)
        · exact Or.inr ⟨Or.inl rfl, hsame⟩
        · exact Or.inl rfl
        · exact Or.inr ⟨Or.inr hf, hfsame⟩
      · rintro (rfl | ⟨rfl | hf, hfsame⟩)
        · exact Or.inr (Or.inl rfl)
        · exact Or.inl rfl
        · exact Or.inr (Or.inr ⟨hf, hfsame⟩)

theorem files_push (log : EditLog) (e : PlannedEdit) : (log.push e).files = insertFile e.file log.files := by
  simp [files, push]

theorem forFile_push (log : EditLog) (e : PlannedEdit) (f : Path) :
    (log.push e).forFile f = log.forFile f ++ if e.file.same f then [e] else [] := by
  by_cases h : e.file.same f = true <;> simp [forFile, push, h]

/-- A file stands among the files of a log in the spelling of its last edit. -/
theorem mem_files_iff {log : EditLog} {f : Path} :
    f ∈ log.files ↔ ∃ e, (log.forFile f).getLast? = some e ∧ e.file = f := by
  obtain ⟨es⟩ := log
  induction es using List.reverseRecOn with
  | nil => simp [files, forFile]
  | append_singleton es e ih =>
    have hpush : (⟨es ++ [e]⟩ : EditLog) = push ⟨es⟩ e := rfl
    rw [hpush, files_push, forFile_push, mem_insertFile_iff e.file (pairwise_files ⟨es⟩), ih]
    by_cases hsame : e.file.same f = true
    · simp [hsame, eq_comm]
    · have hne : f ≠ e.file := fun heq => hsame (by rw [heq, Path.same_self])
      simp [hsame, hne]

/-- Logs that hold the same edits of each file have the same files. -/
theorem files_congr {log log' : EditLog} (h : ∀ f, log.forFile f = log'.forFile f) : log.files = log'.files := by
  have hmem : ∀ f, f ∈ log.files ↔ f ∈ log'.files := by
    intro f
    rw [mem_files_iff, mem_files_iff, h]
  have hperm := (List.perm_ext_iff_of_nodup (nodup_files log) (nodup_files log')).mpr hmem
  refine hperm.eq_of_pairwise ?_ (pairwise_files log) (pairwise_files log')
  intro f g _ _ hfg hgf
  rw [Std.OrientedCmp.gt_iff_lt.mpr hgf] at hfg
  cases hfg

end FieldInjection.EditLog
