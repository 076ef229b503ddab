import FieldInjection.Proofs.Planning.RunConflict
import FieldInjection.Proofs.Workspace.Commit

/-!
# What a failed batch reports

A batch of edits is persisted as a whole or not at all. A commit that fails reports every edit of its log. A preview
that fails reports the edits of one file, the first in path order that cannot be previewed, so the two agree exactly if
the log has no edit for any other file (`unpersisted_of_failed_batch`). With edits of two files the preview leaves out
those of the other one (`preview_leaves_out_other_file`).
-/

namespace FieldInjection

/-- The edits that a failed batch reports as not persisted. -/
def Failure.unpersisted? : Failure → Option (List String)
  | .commit _ unpersisted _ => some unpersisted
  | _ => none

/-- A file whose edits can be shown: it is part of the project and its edits do not conflict. -/
def IsPreviewable (p : Project) (log : EditLog) (file : Path) : Prop :=
  ∃ u, p.unit? file = some u ∧ ∃ after, log.apply file u.text = .ok after

section
variable {p : Project} {log : EditLog} {d : Disk} {file : Path} {failure : Failure}

/-- The edits of a file are all edits of the log exactly if none belongs to another file. -/
theorem describe_forFile_eq_iff :
    (log.forFile file).map PlannedEdit.describe = log.descriptions ↔ ∀ e ∈ log.edits, e.file.same file = true := by
  unfold EditLog.forFile EditLog.descriptions
  constructor
  · intro h
    have hlength := congrArg List.length h
    rw [List.length_map, List.length_map] at hlength
    exact List.length_filter_eq_length_iff.mp hlength
  · intro h
    rw [List.filter_eq_self.mpr h]

theorem unpersisted_of_renderFile (h : Workspace.renderFile p log d file = .error failure) :
    failure.unpersisted? = some log.descriptions := by
  unfold Workspace.renderFile at h
  split at h
  · cases h
    rfl
  · split at h
    · cases h
      rfl
    · split at h
      · cases h
        rfl
      · split at h
        · cases h
          rfl
        · cases h

theorem unpersisted_of_renderFiles {files : List Path} (h : Workspace.renderFiles p log d files = .error failure) :
    failure.unpersisted? = some log.descriptions := by
  induction files with
  | nil => cases h
  | cons file files ih =>
    unfold Workspace.renderFiles at h
    split at h
    · rename_i failure' hfile
      cases h
      exact unpersisted_of_renderFile hfile
    · split at h
      · rename_i failure' hfiles
        cases h
        exact ih hfiles
      · cases h

/-- A commit that fails reports all edits of the log. -/
theorem unpersisted_of_commit (h : (Workspace.commit p log d).answer = .error failure) :
    failure.unpersisted? = some log.descriptions := by
  rw [Workspace.commit_eq] at h
  cases hfiles : Workspace.renderFiles p log d log.files with
  | error failure' =>
    rw [hfiles] at h
    cases h
    exact unpersisted_of_renderFiles hfiles
  | ok xs =>
    rw [hfiles] at h
    cases h

/-- The file at which a preview ends, and what the preview reports. -/
structure EndsAt (p : Project) (log : EditLog) (failure : Failure) (file : Path) : Prop where
  first : ∃ front back, log.files = front ++ file :: back ∧ ∀ f ∈ front, IsPreviewable p log f
  fails : ¬ IsPreviewable p log file
  reports : failure.unpersisted? = some ((log.forFile file).map PlannedEdit.describe)

/-- A preview that fails reports the edits of the first file that cannot be previewed. -/
theorem exists_endsAt_of_preview (h : previewLog p log = .error failure) : ∃ file, EndsAt p log failure file := by
  unfold previewLog at h
  obtain ⟨front, file, back, hsplit, hfront, hfile⟩ := exists_error_of_mapM h
  have hshown : ∀ f ∈ front, IsPreviewable p log f := by
    intro f hf
    obtain ⟨preview, hpreview⟩ := hfront f hf
    split at hpreview
    · cases hpreview
    · rename_i u hunit
      split at hpreview
      · cases hpreview
      · rename_i after happly
        exact ⟨u, hunit, after, happly⟩
  refine ⟨file, ⟨front, back, hsplit, hshown⟩, ?_, ?_⟩
  · rintro ⟨u, hunit, after, happly⟩
    simp [hunit, happly] at hfile
  · split at hfile
    · cases hfile
      rfl
    · split at hfile
      · cases hfile
        rfl
      · cases hfile

end

/--
**A commit that fails reports the whole log, a preview that fails one file of it**: the first file in path order that
is not part of the project or has conflicting edits. So the preview reports what the commit does exactly if all edits
are for that file.
-/
theorem unpersisted_of_failed_batch (p : Project) (log : EditLog) (d : Disk) :
    (∀ failure, (Workspace.commit p log d).answer = .error failure →
      failure.unpersisted? = some log.descriptions) ∧
    ∀ failure, previewLog p log = .error failure → ∃ file, EndsAt p log failure file ∧
      (failure.unpersisted? = some log.descriptions ↔ ∀ e ∈ log.edits, e.file.same file = true) := by
  refine ⟨fun _ => unpersisted_of_commit, ?_⟩
  intro failure h
  obtain ⟨file, hends⟩ := exists_endsAt_of_preview h
  refine ⟨file, hends, ?_⟩
  rw [hends.reports, Option.some.injEq, describe_forFile_eq_iff]

/-- Two files of one letter each. -/
def twoLettersProject : Project :=
  ⟨⟨"."⟩, [TypeScript.readUnit ⟨"./a.ts"⟩ ⟨"a.ts"⟩ "x", TypeScript.readUnit ⟨"./b.ts"⟩ ⟨"b.ts"⟩ "y"]⟩

/-- An insertion into the first file, and a removal of more than the second one holds. -/
def twoLettersLog : EditLog :=
  ⟨[⟨⟨"./a.ts"⟩, .addNamedImport "m" "n", .insert 0 "1"⟩, ⟨⟨"./b.ts"⟩, .removeParameter "B" "p", .delete ⟨0, 2⟩⟩]⟩

/-- Nothing of the log has been persisted, and the edit of the first file is not reported. -/
theorem preview_leaves_out_other_file : ∃ failure, previewLog twoLettersProject twoLettersLog = .error failure ∧
    failure.unpersisted? = some ["./b.ts: remove constructor parameter \x60p\x60 from class \x60B\x60"] ∧
    twoLettersLog.descriptions = ["./a.ts: import \x60n\x60 from \x60m\x60",
      "./b.ts: remove constructor parameter \x60p\x60 from class \x60B\x60"] := by
  refine ⟨.commit "conflicting edits in ./b.ts"
    ["./b.ts: remove constructor parameter \x60p\x60 from class \x60B\x60"]
    (some (.conflict (.invalidRange ⟨0, 2⟩ 1))), ?_, rfl, ?_⟩
  · decide +kernel
  · decide +kernel

end FieldInjection
