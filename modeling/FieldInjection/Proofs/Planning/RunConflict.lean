import FieldInjection.Migration.Workspace
import FieldInjection.Proofs.Lists
import FieldInjection.Proofs.Path.Order
import FieldInjection.Proofs.Planning.Conflict

/-!
# Runs that fail for conflicting edits

A dry run previews the log of its plan and any other run commits it, and both need the edits of all files to be
applied. So a run fails for conflicting edits only if some file is entangled, and with an entangled file it fails
(`conflict_of_entangled`).
-/

namespace FieldInjection

section
variable {parse : Parser} {r : Request} {p : Project} {u : SourceUnit} {plan : Plan}

/-! ## The files of a plan -/

/-- Every file of a plan's log is a unit of its project, in some spelling. -/
theorem unit?_of_mem_files [GlobReader] (hdistinct : p.HasDistinctPaths) (howns : ∀ v ∈ p.units, v.OwnsClasses) {f : Path}
    (hf : f ∈ (Plan.ofClasses r (selectedClasses r p.units)).log.files) :
    ∃ u ∈ p.units, p.unit? f = some u ∧ f.same u.path = true := by
  obtain ⟨e, he, rfl⟩ := EditLog.exists_edit_of_mem_files hf
  rw [ofClasses_eq hdistinct, Plan.log_grow] at he
  obtain ⟨v, hv, he⟩ := List.mem_flatMap.mp he
  have hsame := same_of_mem_fileEdits (howns v hv) he
  have hfind : (p.unit? e.file).isSome = true := by
    rw [Project.unit?, List.find?_isSome]
    exact ⟨v, hv, by rw [Path.same_comm]; exact hsame⟩
  obtain ⟨u, hu⟩ := Option.isSome_iff_exists.mp hfind
  refine ⟨u, List.mem_of_find?_eq_some hu, hu, ?_⟩
  have := List.find?_some hu
  rw [Path.same_comm]
  exact this

/-- A unit whose edits cannot be applied is found under one of the files of the log. -/
theorem exists_file_of_not_apply [GlobReader] (hdistinct : p.HasDistinctPaths) (howns : ∀ v ∈ p.units, v.OwnsClasses)
    (hplan : (planProject r p).answer = .ok plan) (hu : u ∈ p.units)
    (hfails : ¬ ∃ after, plan.log.apply u.path u.text = .ok after) :
    ∃ f ∈ plan.log.files, ∃ v ∈ p.units, p.unit? f = some v ∧ f.same v.path = true ∧
      ¬ ∃ after, plan.log.apply f v.text = .ok after := by
  obtain ⟨-, rfl⟩ := planProject_eq_ok_iff.mp hplan
  -- no edits can always be applied
  have hne : (Plan.ofClasses r (selectedClasses r p.units)).log.forFile u.path ≠ [] := by
    intro hnil
    apply hfails
    rw [EditLog.apply, hnil]
    exact applyEdits_isOk_iff.mpr ⟨by simp, by simp⟩
  -- so an edit names the unit, its file is in the log, and only this unit has that path
  obtain ⟨e, he⟩ := List.exists_mem_of_ne_nil _ hne
  obtain ⟨hmem, hfile⟩ := List.mem_filter.mp he
  obtain ⟨f, hf, hsame⟩ := EditLog.exists_mem_files hmem
  obtain ⟨v, hv, hunit, hfv⟩ := unit?_of_mem_files hdistinct howns hf
  have hsameUnit : f.same u.path = true := by rw [Path.same_congr hsame]; exact hfile
  have hvu : v.path.same u.path = true := by rw [← Path.same_congr hfv]; exact hsameUnit
  obtain rfl : v = u := eq_of_same_of_mem hdistinct hv hu hvu
  refine ⟨f, hf, v, hv, hunit, hfv, ?_⟩
  rw [EditLog.apply_congr _ hsameUnit]
  exact hfails

/-! ## Runs -/

/-- The failure of a commit or preview for edits that conflict. -/
def Failure.IsConflict (f : Failure) : Prop :=
  ∃ text unpersisted conflict, f = .commit text unpersisted (some (.conflict conflict))

/-- The edits of all units can be applied exactly if the log can be previewed. -/
theorem previewLog_isOk_iff [GlobReader] (hdistinct : p.HasDistinctPaths) (howns : ∀ v ∈ p.units, v.OwnsClasses)
    (hplan : (planProject r p).answer = .ok plan) :
    (∃ previews, previewLog p plan.log = .ok previews) ↔
      ∀ u ∈ p.units, ∃ after, plan.log.apply u.path u.text = .ok after := by
  unfold previewLog
  rw [isOk_mapM_iff]
  constructor
  · intro h u hu
    refine Classical.byContradiction fun hfails => ?_
    obtain ⟨f, hf, v, -, hunit, -, hfails⟩ := exists_file_of_not_apply hdistinct howns hplan hu hfails
    obtain ⟨preview, hpreview⟩ := h f hf
    simp only [hunit] at hpreview
    split at hpreview
    · cases hpreview
    · rename_i after happly
      exact hfails ⟨after, happly⟩
  · intro h f hf
    obtain ⟨-, rfl⟩ := planProject_eq_ok_iff.mp hplan
    obtain ⟨u, hu, hunit, hsame⟩ := unit?_of_mem_files hdistinct howns hf
    obtain ⟨after, happly⟩ := h u hu
    rw [← EditLog.apply_congr _ hsame] at happly
    simp [hunit, happly]

theorem previewLog_error {log : EditLog} {failure : Failure} (h : previewLog p log = .error failure)
    (hunits : ∀ f ∈ log.files, ∃ u, p.unit? f = some u) : failure.IsConflict := by
  unfold previewLog at h
  obtain ⟨front, f, back, hsplit, -, hfailure⟩ := exists_error_of_mapM h
  obtain ⟨u, hunit⟩ := hunits f (by simp [hsplit])
  simp only [hunit] at hfailure
  split at hfailure
  · cases hfailure
    exact ⟨_, _, _, rfl⟩
  · cases hfailure

/-- Rendering fails for edits that conflict only in a file whose edits cannot be applied. -/
theorem renderFile_conflict {log : EditLog} {d : Disk} {f : Path} {failure : Failure}
    (h : Workspace.renderFile p log d f = .error failure) (hconflict : failure.IsConflict) :
    ∃ u, p.unit? f = some u ∧ ¬ ∃ after, log.apply f u.text = .ok after := by
  -- the other failures of rendering have no conflict as their cause
  obtain ⟨text, unpersisted, conflict, rfl⟩ := hconflict
  unfold Workspace.renderFile at h
  simp only at h
  split at h
  · cases h
  · rename_i u hunit
    refine ⟨u, hunit, ?_⟩
    rintro ⟨after, happly⟩
    split at h
    · cases h
    · split at h
      · cases h
      · simp [happly] at h

theorem not_renderFile {log : EditLog} {d : Disk} {f : Path} (hunit : p.unit? f = some u)
    (hfails : ¬ ∃ after, log.apply f u.text = .ok after) :
    ∃ failure, Workspace.renderFile p log d f = .error failure := by
  cases h : Workspace.renderFile p log d f with
  | error failure => exact ⟨failure, rfl⟩
  | ok x =>
    exfalso
    unfold Workspace.renderFile at h
    simp only [hunit] at h
    split at h
    · cases h
    · split at h
      · cases h
      · split at h
        · cases h
        · rename_i after happly
          exact hfails ⟨after, happly⟩

/-- Rendering some files fails as it does for one of them. -/
theorem renderFiles_error {log : EditLog} {d : Disk} {files : List Path} {failure : Failure}
    (h : Workspace.renderFiles p log d files = .error failure) :
    ∃ f ∈ files, Workspace.renderFile p log d f = .error failure := by
  induction files with
  | nil => cases h
  | cons f files ih =>
    unfold Workspace.renderFiles at h
    split at h
    · rename_i hfile
      cases h
      exact ⟨f, List.mem_cons_self, hfile⟩
    · split at h
      · rename_i hfiles
        cases h
        obtain ⟨f', hf', hfile⟩ := ih hfiles
        exact ⟨f', List.mem_cons_of_mem f hf', hfile⟩
      · cases h

theorem not_renderFiles {log : EditLog} {d : Disk} {files : List Path} {f : Path} (hf : f ∈ files)
    (hfails : ∃ failure, Workspace.renderFile p log d f = .error failure) :
    ∃ failure, Workspace.renderFiles p log d files = .error failure := by
  induction files with
  | nil => cases hf
  | cons f' files ih =>
    unfold Workspace.renderFiles
    cases hfile : Workspace.renderFile p log d f' with
    | error failure => exact ⟨failure, rfl⟩
    | ok x =>
      rcases List.mem_cons.mp hf with rfl | hf
      · obtain ⟨failure, hfailure⟩ := hfails
        rw [hfile] at hfailure
        cases hfailure
      · obtain ⟨failure, hfailure⟩ := ih hf
        rw [hfailure]
        exact ⟨failure, rfl⟩

/-! ## A whole run -/

/-- A run settles the plan of the project that it loads. -/
theorem answer_run [GlobReader] {d : Disk} (hload : (Workspace.load r d parse).answer = .ok p)
    (hplan : (planProject r p).answer = .ok plan) : (run (Workspace.provider parse) r d).answer =
      (settle (Workspace.provider parse) r p plan (Workspace.load r d parse).state).answer := by
  simp [run, execute, Workspace.provider, hload, hplan]

/-- A dry run answers with the previews of the log or the failure to make them. -/
theorem run_dry_error [GlobReader] {d : Disk} (hload : (Workspace.load r d parse).answer = .ok p)
    (hplan : (planProject r p).answer = .ok plan) (hdry : r.isDryRun = true) {failure : Failure} :
    (run (Workspace.provider parse) r d).answer = .error failure ↔ previewLog p plan.log = .error failure := by
  rw [answer_run hload hplan]
  simp only [settle, hdry, if_true, Workspace.provider]
  cases previewLog p plan.log <;> simp [Except.map]

/-- A run that is no dry run fails where a file cannot be rendered. -/
theorem run_commit_error [GlobReader] {d : Disk} (hload : (Workspace.load r d parse).answer = .ok p)
    (hplan : (planProject r p).answer = .ok plan) (hdry : r.isDryRun = false) {failure : Failure} :
    (run (Workspace.provider parse) r d).answer = .error failure ↔ plan.log.isEmpty = false ∧
      Workspace.renderFiles p plan.log (Workspace.load r d parse).state plan.log.files = .error failure := by
  rw [answer_run hload hplan]
  simp only [settle, hdry, Bool.false_eq_true, if_false, Workspace.provider, Workspace.commit]
  cases hempty : plan.log.isEmpty with
  | true => simp [Except.map]
  | false =>
    cases Workspace.renderFiles p plan.log (Workspace.load r d parse).state plan.log.files <;>
      simp [Except.map]

/-- What entangled files do to a plan and to the runs that settle it. -/
structure FailsForEntangled [GlobReader] (parse : Parser) (r : Request) (p : Project) (plan : Plan) : Prop where
  apply_iff : ∀ u ∈ p.units,
    (∃ after, plan.log.apply u.path u.text = .ok after) ↔ ¬ IsEntangled r p plan u
  entangled_of_conflict : ∀ d failure, (Workspace.load r d parse).answer = .ok p →
    (run (Workspace.provider parse) r d).answer = .error failure → failure.IsConflict →
      ∃ u ∈ p.units, IsEntangled r p plan u
  error_of_entangled : ∀ d, (Workspace.load r d parse).answer = .ok p →
    (∃ u ∈ p.units, IsEntangled r p plan u) →
      ∃ failure, (run (Workspace.provider parse) r d).answer = .error failure
  dry_run_error : r.isDryRun = true → ∀ d failure, (Workspace.load r d parse).answer = .ok p →
    (run (Workspace.provider parse) r d).answer = .error failure → failure.IsConflict

theorem not_isEmpty_of_mem_files {log : EditLog} {f : Path} (hf : f ∈ log.files) : log.isEmpty = false := by
  obtain ⟨e, he, -⟩ := EditLog.exists_edit_of_mem_files hf
  rw [EditLog.isEmpty, List.isEmpty_eq_false_iff]
  exact List.ne_nil_of_mem he

/-- A run that is no dry run fails for edits of a file that cannot be applied. -/
theorem exists_run_error [GlobReader] (hdistinct : p.HasDistinctPaths) (howns : ∀ v ∈ p.units, v.OwnsClasses)
    (hplan : (planProject r p).answer = .ok plan) (hu : u ∈ p.units)
    (hfails : ¬ ∃ after, plan.log.apply u.path u.text = .ok after) {d : Disk}
    (hload : (Workspace.load r d parse).answer = .ok p) :
    ∃ failure, (run (Workspace.provider parse) r d).answer = .error failure := by
  cases hdry : r.isDryRun with
  | true =>
    -- a preview applies the edits of every file
    have hpreview : ¬ ∃ previews, previewLog p plan.log = .ok previews := by
      intro h
      exact hfails ((previewLog_isOk_iff hdistinct howns hplan).mp h u hu)
    cases hlog : previewLog p plan.log with
    | error failure => exact ⟨failure, (run_dry_error hload hplan hdry).mpr hlog⟩
    | ok previews => exact absurd ⟨previews, hlog⟩ hpreview
  | false =>
    -- the file is rendered, unless the run fails for another one before
    obtain ⟨f, hf, v, -, hunit, -, hfails'⟩ := exists_file_of_not_apply hdistinct howns hplan hu hfails
    obtain ⟨failure, hfailure⟩ := not_renderFiles (d := (Workspace.load r d parse).state) hf
      (not_renderFile hunit hfails')
    exact ⟨failure, (run_commit_error hload hplan hdry).mpr ⟨not_isEmpty_of_mem_files hf, hfailure⟩⟩

/-- A run fails for conflicting edits only if those of some file cannot be applied. -/
theorem not_apply_of_conflict [GlobReader] (hdistinct : p.HasDistinctPaths) (howns : ∀ v ∈ p.units, v.OwnsClasses)
    (hplan : (planProject r p).answer = .ok plan) {d : Disk} {failure : Failure}
    (hload : (Workspace.load r d parse).answer = .ok p)
    (hrun : (run (Workspace.provider parse) r d).answer = .error failure) (hconflict : failure.IsConflict) :
    ∃ u ∈ p.units, ¬ ∃ after, plan.log.apply u.path u.text = .ok after := by
  cases hdry : r.isDryRun with
  | true =>
    -- all files could be previewed if the edits of each could be applied
    refine Classical.byContradiction fun hnone => ?_
    have hall : ∀ u ∈ p.units, ∃ after, plan.log.apply u.path u.text = .ok after :=
      fun u hu => Classical.byContradiction fun hfails => hnone ⟨u, hu, hfails⟩
    obtain ⟨previews, hpreviews⟩ := (previewLog_isOk_iff hdistinct howns hplan).mpr hall
    rw [run_dry_error hload hplan hdry, hpreviews] at hrun
    cases hrun
  | false =>
    -- the conflict is that of the file at which the commit stops
    obtain ⟨-, hrender⟩ := (run_commit_error hload hplan hdry).mp hrun
    obtain ⟨f, hf, hfile⟩ := renderFiles_error hrender
    obtain ⟨u, hunit, hfails⟩ := renderFile_conflict hfile hconflict
    obtain ⟨-, rfl⟩ := planProject_eq_ok_iff.mp hplan
    obtain ⟨v, hv, hunit', hsame⟩ := unit?_of_mem_files hdistinct howns hf
    obtain rfl : u = v := Option.some.inj (hunit.symm.trans hunit')
    rw [EditLog.apply_congr _ hsame] at hfails
    exact ⟨u, hv, hfails⟩

/-- **Edits conflict exactly in entangled files**: take a project that was read without errors, by a parser whose
nodes stand where they say and have the shapes of the grammar. The edits that a plan has for a file can be applied
unless fields are inserted or an import is changed inside the parameter list of a class that is migrated too. A run
fails for conflicting edits only if its project has such a file, and if it has one, it fails.
-/
theorem conflict_of_entangled [GlobReader] (hplaces : parse.PlacesNodes) (hgrammar : parse.FollowsGrammar)
    (hglobs : (Selector.ofRequest r).isOk = true) (hdistinct : p.HasDistinctPaths) (hparsed : p.IsParsed parse)
    (herrors : p.HasNoErrors) :
    ∃ plan, (planProject r p).answer = .ok plan ∧ FailsForEntangled parse r p plan := by
  obtain ⟨plan, hplan, -⟩ := exists_plan hglobs p
  have howns := hparsed.ownsClasses
  have happly : ∀ u ∈ p.units,
      (∃ after, plan.log.apply u.path u.text = .ok after) ↔ ¬ IsEntangled r p plan u := by
    intro u hu
    obtain ⟨tree, hread⟩ := hparsed.exists_tree hplaces hgrammar hu (herrors u hu)
    exact apply_isOk_iff hplan hdistinct howns hu hread
  refine ⟨plan, hplan, happly, ?_, ?_, ?_⟩
  · intro d failure hload hrun hconflict
    obtain ⟨u, hu, hfails⟩ := not_apply_of_conflict hdistinct howns hplan hload hrun hconflict
    refine ⟨u, hu, ?_⟩
    exact Classical.byContradiction fun hfree => hfails ((happly u hu).mpr hfree)
  · rintro d hload ⟨u, hu, hentangled⟩
    exact exists_run_error hdistinct howns hplan hu (fun h => (happly u hu).mp h hentangled) hload
  · -- a dry run has all files of the log at hand and can fail for nothing else
    intro hdry d failure hload hrun
    rw [run_dry_error hload hplan hdry] at hrun
    refine previewLog_error hrun ?_
    intro f hf
    obtain ⟨-, rfl⟩ := planProject_eq_ok_iff.mp hplan
    obtain ⟨u, -, hunit, -⟩ := unit?_of_mem_files hdistinct howns hf
    exact ⟨u, hunit⟩

end

/-- Every run over a file with a migrated class in the default value of a parameter fails. -/
theorem classInDefault_run_fails :
    let parse := Parser.ofFiles [classInDefaultFile]
    let r := Request.forRoot ⟨"/p"⟩
    parse.PlacesNodes ∧ parse.FollowsGrammar ∧
      (Selector.ofRequest r).isOk = true ∧ classInDefaultProject.HasDistinctPaths ∧
      classInDefaultProject.IsParsed parse ∧ classInDefaultProject.HasNoErrors ∧
      ∃ plan, (planProject r classInDefaultProject).answer = .ok plan ∧
        (¬ ∃ after, plan.log.apply classInDefault.path classInDefault.text = .ok after) ∧
        ∀ d, (Workspace.load r d parse).answer = .ok classInDefaultProject →
          ∃ failure, (run (Workspace.provider parse) r d).answer = .error failure := by
  intro parse r
  have hglobs : (Selector.ofRequest r).isOk = true := by decide +kernel
  have hdistinct : classInDefaultProject.HasDistinctPaths := List.pairwise_singleton _ _
  have hu : classInDefault ∈ classInDefaultProject.units := List.mem_singleton.mpr rfl
  obtain ⟨plan, hplan, hfails⟩ := conflict_of_entangled Parser.ofFiles_placesNodes
    Parser.ofFiles_followsGrammar hglobs hdistinct classInDefaultProject_isParsed classInDefaultProject_hasNoErrors
  obtain ⟨-, rfl⟩ := planProject_eq_ok_iff.mp hplan
  refine ⟨Parser.ofFiles_placesNodes, Parser.ofFiles_followsGrammar, hglobs, hdistinct,
    classInDefaultProject_isParsed, classInDefaultProject_hasNoErrors, _, hplan, ?_, ?_⟩
  · intro happly
    exact (hfails.apply_iff _ hu).mp happly classInDefault_isEntangled
  · intro d hload
    exact hfails.error_of_entangled d hload ⟨_, hu, classInDefault_isEntangled⟩

end FieldInjection
