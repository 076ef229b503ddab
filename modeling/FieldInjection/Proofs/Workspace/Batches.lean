import FieldInjection.Proofs.Lists
import FieldInjection.Proofs.Workspace.Commit

/-!
# Edits file by file

A log is applied one file after the other, each with the edits that the log holds for it. Which files there are is told
by the order of paths, and which edits belong to a file by the equality of paths. Both go by components, so each edit
belongs to one of the files (`existsUnique_file`), and what the files have together is the log (`filter_batches`,
`perm_batches`), under whatever spellings its edits were pushed. Previews and commits apply these batches and nothing
else (`batches_make_up_log`).
-/

namespace FieldInjection

namespace EditLog

/-- The edits of a log file by file, those of the first one in front. -/
def batches (log : EditLog) : List PlannedEdit := log.files.flatMap log.forFile

section
variable {log : EditLog} {e : PlannedEdit} {f g file : Path}

/-! ## One file for each edit -/

theorem mem_forFile_iff : e ∈ log.forFile f ↔ e ∈ log.edits ∧ e.file.same f = true := List.mem_filter

/-- The files of a log are different paths. -/
theorem eq_of_mem_files (hf : f ∈ log.files) (hg : g ∈ log.files) (hsame : f.same g = true) : f = g := by
  by_contra hne
  have hapart : log.files.Pairwise fun f g => f.same g = false := by
    refine log.pairwise_files.imp ?_
    intro f g hlt
    rw [← Bool.not_eq_true, ← Path.compare_eq_iff, hlt]
    simp
  have hsymm : Std.Symm fun f g : Path => f.same g = false := ⟨fun f g h => by rw [Path.same_comm]; exact h⟩
  have hother : f.same g = false := hapart.forall hf hg hne
  rw [hsame] at hother
  cases hother

/-- A path with edits is one of the files, in one spelling. -/
theorem existsUnique_spelling (he : e ∈ log.edits) (hfile : e.file.same file = true) :
    ∃! f, f ∈ log.files ∧ f.same file = true := by
  obtain ⟨f, hf, hsame⟩ := exists_mem_files he
  rw [← Path.same_congr hsame] at hfile
  refine ⟨f, ⟨hf, hfile⟩, ?_⟩
  rintro g ⟨hg, hgfile⟩
  refine eq_of_mem_files hg hf ?_
  rw [Path.same_congr hgfile, Path.same_comm]
  exact hfile

/-- Every edit belongs to one of the files. -/
theorem existsUnique_file (he : e ∈ log.edits) : ∃! f, f ∈ log.files ∧ e ∈ log.forFile f := by
  simpa [mem_forFile_iff, he, Path.same_comm] using existsUnique_spelling he (Path.same_self e.file)

/-! ## All files together -/

/-- Among the edits of a file are all those of a path of which the file is a spelling, and none of another path. -/
theorem filter_forFile (log : EditLog) (f file : Path) :
    (log.forFile f).filter (fun e => e.file.same file) = if f.same file then log.forFile file else [] := by
  split
  · rename_i hsame
    rw [forFile_congr log hsame, List.filter_eq_self]
    exact fun e he => (mem_forFile_iff.mp he).2
  · rename_i hother
    rw [List.filter_eq_nil_iff]
    intro e he hfile
    rw [← Path.same_congr (mem_forFile_iff.mp he).2] at hother
    exact hother hfile

/-- File by file there are the edits of each path, in the order of the log. -/
theorem filter_batches (log : EditLog) (file : Path) :
    log.batches.filter (fun e => e.file.same file) = log.forFile file := by
  have hfilter : log.batches.filter (fun e => e.file.same file) =
      log.files.flatMap fun f => if f.same file then log.forFile file else [] := by
    rw [batches, List.filter_flatMap]
    simp only [filter_forFile]
  rw [hfilter]
  cases hedits : log.forFile file with
  | nil => simp
  | cons e es =>
    -- one of the files is the path, and those around it have none of its edits
    have he : e ∈ log.forFile file := by
      rw [hedits]
      exact List.mem_cons_self
    obtain ⟨he, hfile⟩ := mem_forFile_iff.mp he
    obtain ⟨f, ⟨hf, hsame⟩, hunique⟩ := existsUnique_spelling he hfile
    obtain ⟨front, back, hfiles⟩ := List.append_of_mem hf
    have hnone : ∀ fs ⊆ log.files, f ∉ fs →
        (fs.flatMap fun f => if f.same file then e :: es else []) = [] := by
      intro fs hfs hnot
      rw [List.flatMap_eq_nil_iff]
      intro g hg
      refine if_neg fun hgfile => hnot ?_
      rw [← hunique g ⟨hfs hg, hgfile⟩]
      exact hg
    have hnodup := log.nodup_files
    rw [hfiles, List.nodup_middle, List.nodup_cons, List.mem_append, not_or] at hnodup
    rw [hfiles] at hnone ⊢
    rw [List.flatMap_append, List.flatMap_cons, hnone front (by simp) hnodup.1.1, hnone back (by simp) hnodup.1.2,
      if_pos hsame, List.nil_append, List.append_nil]

/-- File by file there are the edits of the log. -/
theorem perm_batches (log : EditLog) : log.batches.Perm log.edits := by
  rw [List.perm_iff_count]
  intro e
  -- an edit is as often among all edits as among those of its file
  have hown : ∀ es : List PlannedEdit, es.count e = (es.filter fun e' => e'.file.same e.file).count e := by
    intro es
    exact (List.count_filter (p := fun e' : PlannedEdit => e'.file.same e.file) (Path.same_self e.file)).symm
  rw [hown, hown log.edits, filter_batches, forFile]

end

end EditLog

section
variable {p : Project} {log : EditLog}

/-- Previews show what its edits make of each file. -/
theorem forall₂_previewLog {previews : List FilePreview} (h : previewLog p log = .ok previews) :
    List.Forall₂ (fun f v => v.path = f ∧ ∃ u, p.unit? f = some u ∧ v.before = u.text ∧
      applyEdits u.text ((log.forFile f).map PlannedEdit.edit) = .ok v.after) log.files previews := by
  refine (mapM_eq_ok_iff.mp h).imp ?_
  intro f v hv
  dsimp only at hv
  split at hv
  · cases hv
  · rename_i u hunit
    split at hv
    · cases hv
    · rename_i after happly
      cases hv
      exact ⟨rfl, u, hunit, rfl, happly⟩

end

/--
**Splitting a log by its files loses and duplicates nothing.** The files stand in strict path order, and there is one of
them for each path with edits, whatever spellings they were pushed under. Every edit belongs to one of the files, and
file by file there are the edits of the log, those of each path in the order of the log. So previews and commits, which
apply to each file what the log holds for it, apply every edit once.
-/
theorem batches_make_up_log (log : EditLog) :
    (log.files.Pairwise fun f g => f.compare g = .lt) ∧
    (∀ file, (∃ e ∈ log.edits, e.file.same file = true) ↔ ∃! f, f ∈ log.files ∧ f.same file = true) ∧
    (∀ e ∈ log.edits, ∃! f, f ∈ log.files ∧ e ∈ log.forFile f) ∧
    log.batches.Perm log.edits ∧
    (∀ file, log.batches.filter (fun e => e.file.same file) = log.edits.filter fun e => e.file.same file) ∧
    (∀ p previews, previewLog p log = .ok previews → List.Forall₂ (fun f v => v.path = f ∧ ∃ u,
      p.unit? f = some u ∧ v.before = u.text ∧
        applyEdits u.text ((log.forFile f).map PlannedEdit.edit) = .ok v.after) log.files previews) ∧
    ∀ p d written, (Workspace.commit p log d).answer = .ok written → ∃ xs, List.Forall₂ (fun f x =>
      p.unit? f = some x.1 ∧ applyEdits x.1.text ((log.forFile f).map PlannedEdit.edit) = .ok x.2) log.files xs ∧
        (Workspace.commit p log d).state = Workspace.replaceAll d xs := by
  refine ⟨log.pairwise_files, fun file => ⟨?_, ?_⟩, fun e he => EditLog.existsUnique_file he, log.perm_batches,
    log.filter_batches, fun p previews h => forall₂_previewLog h, ?_⟩
  · rintro ⟨e, he, hfile⟩
    exact EditLog.existsUnique_spelling he hfile
  · rintro ⟨f, ⟨hf, hsame⟩, -⟩
    obtain ⟨e, he, rfl⟩ := EditLog.exists_edit_of_mem_files hf
    exact ⟨e, he, hsame⟩
  · intro p d written h
    obtain ⟨xs, hxs, -, hstate⟩ := Workspace.exists_rendered_of_commit h
    refine ⟨xs, hxs.imp ?_, hstate⟩
    intro f x hx
    obtain ⟨hunit, -, happly⟩ := Workspace.renderFile_eq_ok_iff.mp hx
    exact ⟨hunit, happly⟩

end FieldInjection
