import FieldInjection.Proofs.Planning.RunConflict
import FieldInjection.Proofs.Workspace.Commit
import FieldInjection.Proofs.Workspace.Loading

/-!
# Dry runs

A dry run and a run from the same disk fail together, and if they succeed the dry run has said what the other does:
the log, the counts, the failures, and every file that is written with its text before and after
(`dry_run_predicts_run`).
-/

namespace FieldInjection

/-- The same request, to show or to make the changes. -/
def Request.withDryRun (r : Request) (dry : Bool) : Request := { r with isDryRun := dry }

/-- Previews of all that has changed from one disk to another. -/
structure ShowChanges (vs : List FilePreview) (d d' : Disk) : Prop where
  held : ∀ v ∈ vs, d.readText? v.path = some v.before
  holds : ∀ v ∈ vs, d'.readText? v.path = some v.after
  unchanged : ∀ place, (∀ v ∈ vs, d.locateEntry? v.path ≠ some place) → d'.top.itemAt? place = d.top.itemAt? place
  workingDirectory_eq : d'.workingDirectory = d.workingDirectory

/-- What the outcome of a dry run says of a run from the same disk, which leaves another one. -/
structure Outcome.Predicts (dry real : Outcome) (d d' : Disk) : Prop where
  modified_eq : real.summary.modified = dry.summary.modified
  skipped_eq : real.summary.skipped = dry.summary.skipped
  failures_eq : real.summary.failures = dry.summary.failures
  plannedEdits_eq : real.summary.plannedEdits = dry.summary.plannedEdits
  log_eq : real.log = dry.log
  filesWritten_eq : real.summary.filesWritten = dry.previews.map FilePreview.path
  showChanges : ShowChanges dry.previews d d'

section
variable {parse : Parser} {r : Request} {p : Project} {plan : Plan} {d : Disk} {u : SourceUnit}

theorem planProject_withDryRun [GlobReader] (r : Request) (dry : Bool) (p : Project) :
    (planProject (r.withDryRun dry) p).answer = (planProject r p).answer := by
  have hselector : Selector.ofRequest (r.withDryRun dry) = Selector.ofRequest r := rfl
  unfold planProject
  rw [hselector]
  cases Selector.ofRequest r with
  | error failure => rfl
  | ok selector => rfl

/-! ## The files of a plan -/

/-- The files of a plan's log are units of the project in their own spelling. -/
theorem path_of_mem_files [GlobReader] (hdistinct : p.HasDistinctPaths) (hparsed : p.IsParsed parse)
    (hplan : (planProject r p).answer = .ok plan) {f : Path} (hf : f ∈ plan.log.files) :
    ∃ u ∈ p.units, p.unit? f = some u ∧ u.path = f := by
  obtain ⟨-, rfl⟩ := planProject_eq_ok_iff.mp hplan
  have hexact : ∃ v ∈ p.units, v.path = f := by
    obtain ⟨e, he, rfl⟩ := EditLog.exists_edit_of_mem_files hf
    rw [ofClasses_eq hdistinct, Plan.log_grow] at he
    obtain ⟨v, hv, he⟩ := List.mem_flatMap.mp he
    refine ⟨v, hv, ?_⟩
    rw [fileEdits_eq, List.mem_append] at he
    rcases he with he | he
    · exact (mem_importEdits (mem_importEditsTaken he)).1.symm
    · obtain ⟨c, hc, hedit⟩ := List.mem_flatMap.mp he
      obtain ⟨path, relativePath, text, rfl⟩ := hparsed v hv
      have hclass := mem_of_mem_selectedIn (List.mem_filter.mp hc).1
      rw [(mem_classEdits hedit).1, TypeScript.file_readTree hclass]
      rfl
  obtain ⟨v, hv, rfl⟩ := hexact
  obtain ⟨u, hu, hunit, hsame⟩ := unit?_of_mem_files hdistinct hparsed.ownsClasses hf
  obtain rfl := eq_of_same_of_mem hdistinct hv hu hsame
  exact ⟨v, hv, hunit, rfl⟩

/-! ## Previews -/

/-- The preview of a file that was rendered. -/
def previewOf (x : SourceUnit × String) : FilePreview := ⟨x.1.path, x.1.text, x.2⟩

theorem previewLog_eq_of_rendered {xs : List (SourceUnit × String)}
    (hfiles : ∀ f ∈ plan.log.files, ∃ u ∈ p.units, p.unit? f = some u ∧ u.path = f)
    (hxs : List.Forall₂ (fun file x => Workspace.renderFile p plan.log d file = .ok x) plan.log.files xs) :
    previewLog p plan.log = .ok (xs.map previewOf) := by
  unfold previewLog
  generalize plan.log.files = files at hfiles hxs
  induction hxs with
  | nil => rfl
  | @cons f x files xs hx _ ih =>
    obtain ⟨u, -, hunit, hpath⟩ := hfiles f List.mem_cons_self
    obtain ⟨hunit', -, happly⟩ := Workspace.renderFile_eq_ok_iff.mp hx
    obtain rfl := Option.some.inj (hunit.symm.trans hunit')
    have hrest := ih fun g hg => hfiles g (List.mem_cons_of_mem f hg)
    rw [List.mapM_cons, hrest]
    simp only [hunit, happly, List.map_cons, previewOf, hpath]
    rfl

/-- The files of a plan can be rendered exactly if their edits can be previewed. -/
theorem exists_rendered_iff (hloaded : Workspace.IsLoaded parse d p)
    (hfiles : ∀ f ∈ plan.log.files, ∃ u ∈ p.units, p.unit? f = some u ∧ u.path = f) :
    (∃ xs, List.Forall₂ (fun file x => Workspace.renderFile p plan.log d file = .ok x) plan.log.files xs) ↔
      ∃ previews, previewLog p plan.log = .ok previews := by
  constructor
  · rintro ⟨xs, hxs⟩
    exact ⟨_, previewLog_eq_of_rendered hfiles hxs⟩
  · intro h
    refine exists_forall₂ ?_
    intro f hf
    obtain ⟨preview, hpreview⟩ := isOk_mapM_iff.mp h f hf
    obtain ⟨u, hu, hunit, -⟩ := hfiles f hf
    simp only [hunit] at hpreview
    split at hpreview
    · cases hpreview
    · rename_i after happly
      exact ⟨(u, after), Workspace.renderFile_eq_ok_iff.mpr ⟨hunit, hloaded.reads u hu, happly⟩⟩

/-! ## Runs -/

theorem run_eq_settle [GlobReader] (hload : (Workspace.load r d parse).answer = .ok p)
    (hplan : (planProject r p).answer = .ok plan) :
    (run (Workspace.provider parse) r d).answer = (settle (Workspace.provider parse) r p plan d).answer ∧
    (run (Workspace.provider parse) r d).state = (settle (Workspace.provider parse) r p plan d).state := by
  rw [answer_run hload hplan, Workspace.state_load]
  refine ⟨rfl, ?_⟩
  simp [run, execute, Workspace.provider, hload, hplan, Workspace.state_load]

/-- Without a project or a plan of it, a run fails and leaves the disk as it is. -/
theorem run_eq_error [GlobReader]
    (h : ¬ ∃ p plan, (Workspace.load r d parse).answer = .ok p ∧ (planProject r p).answer = .ok plan) :
    (¬ ∃ outcome, (run (Workspace.provider parse) r d).answer = .ok outcome) ∧
      (run (Workspace.provider parse) r d).state = d := by
  cases hload : (Workspace.load r d parse).answer with
  | error failure => simp [run, execute, Workspace.provider, hload, Workspace.state_load]
  | ok p =>
    cases hplan : (planProject r p).answer with
    | error failure => simp [run, execute, Workspace.provider, hload, hplan, Workspace.state_load]
    | ok plan => exact absurd ⟨p, plan, hload, hplan⟩ h

theorem showChanges_of_rendered (hloaded : Workspace.IsLoaded parse d p) {log : EditLog} {xs : List (SourceUnit × String)}
    (hxs : List.Forall₂ (fun file x => Workspace.renderFile p log d file = .ok x) log.files xs) :
    ShowChanges (xs.map previewOf) d (Workspace.replaceAll d xs) := by
  have hrendered := Workspace.rendered_spec hxs
  have hcommitted := Workspace.hasCommitted_of_rendered hxs
  refine ⟨?_, ?_, ?_, hcommitted.workingDirectory_eq⟩
  · intro v hv
    obtain ⟨x, hx, rfl⟩ := List.mem_map.mp hv
    exact (hrendered x hx).2.1
  · intro v hv
    obtain ⟨x, hx, rfl⟩ := List.mem_map.mp hv
    obtain ⟨front, back, rfl⟩ := List.append_of_mem hx
    refine Workspace.readText?_of_last (Workspace.hasReplaced_of_rendered hxs) rfl (hrendered x hx).2.1 ?_
    -- the files behind it are other units, and these have entries of their own
    intro y hy
    have hmem : y ∈ front ++ x :: back := List.mem_append_right _ (List.mem_cons_of_mem x hy)
    have hordered : x.1.path.compare y.1.path = .lt := by
      have hpairwise := List.pairwise_map.mp (Workspace.pairwise_rendered hxs)
      exact (List.pairwise_cons.mp (List.pairwise_append.mp hpairwise).2.1).1 y hy
    have hne : y.1 ≠ x.1 := by
      intro heq
      rw [heq, Path.compare_eq_iff.mpr (Path.same_self x.1.path)] at hordered
      cases hordered
    have hsymm : Std.Symm fun u v : SourceUnit => d.locateEntry? u.path ≠ d.locateEntry? v.path := ⟨fun _ _ h => h.symm⟩
    exact hloaded.apart.forall (List.mem_of_find?_eq_some (hrendered y hmem).1)
      (List.mem_of_find?_eq_some (hrendered x hx).1) hne
  · intro place hplace
    refine hcommitted.unchanged place ?_
    intro f hf
    obtain ⟨x, hx, rfl⟩ := List.mem_map.mp hf
    exact hplace (previewOf x) (List.mem_map_of_mem hx)

/-- What a dry run says of the plan of a project, and what a run makes of it. -/
theorem settle_predicts [GlobReader] (hloaded : Workspace.IsLoaded parse d p)
    (hplan : (planProject r p).answer = .ok plan) :
    let dry := settle (Workspace.provider parse) (r.withDryRun true) p plan d
    let real := settle (Workspace.provider parse) (r.withDryRun false) p plan d
    dry.state = d ∧
    ((∃ outcome, dry.answer = .ok outcome) ↔ ∃ outcome, real.answer = .ok outcome) ∧
    (∀ failure, real.answer = .error failure → real.state = d) ∧
    ∀ outcome outcome', dry.answer = .ok outcome → real.answer = .ok outcome' →
      outcome.Predicts outcome' d real.state := by
  intro dry real
  have hfiles : ∀ f ∈ plan.log.files, ∃ u ∈ p.units, p.unit? f = some u ∧ u.path = f :=
    fun f hf => path_of_mem_files hloaded.distinct hloaded.parsed hplan hf
  have hdry : dry.state = d := by simp [dry, settle, Request.withDryRun, Workspace.provider]
  refine ⟨hdry, ?_⟩
  by_cases hxs : ∃ xs, List.Forall₂ (fun file x => Workspace.renderFile p plan.log d file = .ok x) plan.log.files xs
  · -- all files can be rendered, and what is shown is what is written
    obtain ⟨xs, hxs⟩ := hxs
    have hpreview := previewLog_eq_of_rendered hfiles hxs
    have hcommit := Workspace.commit_eq p plan.log d
    rw [Workspace.renderFiles_eq_ok_iff.mpr hxs] at hcommit
    have hdryAnswer : dry.answer = .ok ⟨⟨plan.modified, plan.skipped, plan.failures, plan.log.size, [], true,
        plan.failures.isEmpty⟩, plan.log, xs.map previewOf⟩ := by
      simp [dry, settle, Request.withDryRun, Workspace.provider, hpreview, Except.map]
    have hrealAnswer : real.answer = .ok ⟨⟨plan.modified, plan.skipped, plan.failures, plan.log.size,
        xs.map fun x => x.1.path, false, plan.failures.isEmpty⟩, plan.log, []⟩ := by
      simp [real, settle, Request.withDryRun, Workspace.provider, hcommit, Except.map]
    have hrealState : real.state = Workspace.replaceAll d xs := by
      simp [real, settle, Request.withDryRun, Workspace.provider, hcommit]
    rw [hdryAnswer, hrealAnswer, hrealState]
    refine ⟨by simp, by simp, ?_⟩
    intro outcome outcome' hok hok'
    obtain rfl := Except.ok.inj hok
    obtain rfl := Except.ok.inj hok'
    refine ⟨rfl, rfl, rfl, rfl, rfl, ?_, showChanges_of_rendered hloaded hxs⟩
    simp [previewOf]
  · -- some file cannot be rendered, neither to be shown nor to be written
    have hpreview : ¬ ∃ previews, previewLog p plan.log = .ok previews :=
      fun h => hxs ((exists_rendered_iff hloaded hfiles).mpr h)
    obtain ⟨failure, hfailure⟩ := Workspace.exists_error_iff.mpr hpreview
    have hrender : ¬ ∃ xs, Workspace.renderFiles p plan.log d plan.log.files = .ok xs := by
      rintro ⟨xs, h⟩
      exact hxs ⟨xs, Workspace.renderFiles_eq_ok_iff.mp h⟩
    obtain ⟨failure', hfailure'⟩ := Workspace.exists_error_iff.mpr hrender
    have hcommit := Workspace.commit_eq p plan.log d
    rw [hfailure'] at hcommit
    have hdryAnswer : dry.answer = .error failure := by
      simp [dry, settle, Request.withDryRun, Workspace.provider, hfailure, Except.map]
    have hrealAnswer : real.answer = .error failure' := by
      simp [real, settle, Request.withDryRun, Workspace.provider, hcommit, Except.map]
    have hrealState : real.state = d := by
      simp [real, settle, Request.withDryRun, Workspace.provider, hcommit]
    rw [hdryAnswer, hrealAnswer, hrealState]
    refine ⟨by simp, by simp, ?_⟩
    intro outcome outcome' hok
    cases hok

/--
**A dry run predicts the run**: from the same disk both fail or both succeed. The dry run leaves the disk as it is, and
so does a run that fails. If they succeed, they have the same log, counts and failures, the run writes the files that
the dry run has previews of, each held the text before its edits and then holds the text after them, and nothing else
has changed.
-/
theorem dry_run_predicts_run [GlobReader] (parse : Parser) (r : Request) (d : NamedDisk) :
    let dry := run (Workspace.provider parse) (r.withDryRun true) d.toDisk
    let real := run (Workspace.provider parse) (r.withDryRun false) d.toDisk
    dry.state = d.toDisk ∧
    ((∃ outcome, dry.answer = .ok outcome) ↔ ∃ outcome, real.answer = .ok outcome) ∧
    (∀ failure, real.answer = .error failure → real.state = d.toDisk) ∧
    ∀ outcome outcome', dry.answer = .ok outcome → real.answer = .ok outcome' →
      outcome.Predicts outcome' d.toDisk real.state := by
  intro dry real
  by_cases h : ∃ p plan, (Workspace.load r d.toDisk parse).answer = .ok p ∧ (planProject r p).answer = .ok plan
  · -- both runs settle one plan, which does not depend on the kind of the run
    obtain ⟨p, plan, hload, hplan⟩ := h
    have hrun : ∀ b, (run (Workspace.provider parse) (r.withDryRun b) d.toDisk).answer =
        (settle (Workspace.provider parse) (r.withDryRun b) p plan d.toDisk).answer ∧
        (run (Workspace.provider parse) (r.withDryRun b) d.toDisk).state =
        (settle (Workspace.provider parse) (r.withDryRun b) p plan d.toDisk).state := by
      intro b
      exact run_eq_settle hload ((planProject_withDryRun r b p).trans hplan)
    simp only [dry, real, (hrun true).1, (hrun true).2, (hrun false).1, (hrun false).2]
    exact settle_predicts (Workspace.load_isLoaded hload) hplan
  · -- neither run comes to a plan
    have hrun : ∀ b, (¬ ∃ outcome, (run (Workspace.provider parse) (r.withDryRun b) d.toDisk).answer = .ok outcome) ∧
        (run (Workspace.provider parse) (r.withDryRun b) d.toDisk).state = d.toDisk := by
      intro b
      refine run_eq_error ?_
      rintro ⟨p, plan, hload, hplan⟩
      exact h ⟨p, plan, hload, (planProject_withDryRun r b p).symm.trans hplan⟩
    refine ⟨(hrun true).2, iff_of_false (hrun true).1 (hrun false).1, fun _ _ => (hrun false).2, ?_⟩
    intro outcome outcome' hdry
    exact absurd ⟨outcome, hdry⟩ (hrun true).1

end

/-- A file with a class to migrate. -/
def oneClassText : String :=
  "import \x7b C \x7d from '@angular/core';\nclass AComponent \x7b\n  constructor(private a: A) \x7b\x7d\n\x7d\n"

def oneClassTree : SyntaxNode :=
  .rule "program" none 0 87 [
    .rule "import_statement" none 0 34 [
      .token "import" 0,
      .rule "import_clause" none 7 12 [
        .rule "named_imports" none 7 12 [
          .token "\x7b" 7, .rule "import_specifier" none 9 10 [.rule "identifier" (some "name") 9 10 []],
          .token "\x7d" 11]],
      .token "from" 13,
      .rule "string" (some "source") 18 33 [.token "'" 18, .rule "string_fragment" none 19 32 [], .token "'" 32],
      .token ";" 33],
    .rule "class_declaration" none 35 86 [
      .token "class" 35, .rule "type_identifier" (some "name") 41 51 [],
      .rule "class_body" (some "body") 52 86 [
        .token "\x7b" 52,
        .rule "method_definition" none 56 84 [
          .rule "property_identifier" (some "name") 56 67 [],
          .rule "formal_parameters" (some "parameters") 67 81 [
            .token "(" 67,
            .rule "required_parameter" none 68 80 [
              .rule "accessibility_modifier" none 68 75 [.token "private" 68],
              .rule "identifier" (some "pattern") 76 77 [],
              .rule "type_annotation" (some "type") 77 80 [.token ":" 77, .rule "type_identifier" none 79 80 []]],
            .token ")" 80],
          .rule "statement_block" (some "body") 82 84 [.token "\x7b" 82, .token "\x7d" 83]],
        .token "\x7d" 85]]]

/-- What a migration makes of it. -/
def oneClassMigrated : String :=
  "import \x7b C, inject \x7d from '@angular/core';\nclass AComponent \x7b\n  private a: A = inject(A);\n\n" ++
    "  constructor() \x7b\x7d\n\x7d\n"

/-- A directory with this file. -/
def oneClassDisk : NamedDisk where
  top := .directory [("p", .directory [("a.ts", .file oneClassText.toUTF8)])]
  workingDirectory := []
  isWellNamed := by decide +kernel

/-- The file as it is read. -/
def oneClassUnit : SourceUnit where
  path := ⟨"p/a.ts"⟩
  relativePath := ⟨"a.ts"⟩
  text := oneClassText
  classes := [⟨"AComponent", ⟨"p/a.ts"⟩, ⟨35, 86⟩, 53, "  ", true, .lf,
    some ⟨[⟨"a", .identifier, some "A", false, false, some .priv, [], ⟨68, 80⟩⟩], ⟨68, 80⟩, 0⟩⟩]
  imports := [⟨"@angular/core", ["C"], [], false, ⟨0, 34⟩, .afterLastSpecifier 10⟩]
  hasSyntaxErrors := false

def oneClassProject : Project := ⟨⟨"p"⟩, [oneClassUnit]⟩

def oneClassFile : ParsedFile where
  unit := oneClassUnit
  root := oneClassTree
  isReadFrom := SourceUnit.isReadFrom_of String.toList_ofList (by decide +kernel)

def oneClassParser : Parser := .ofFiles [oneClassFile]

theorem readUnit_oneClass : TypeScript.readUnit ⟨"p/a.ts"⟩ ⟨"a.ts"⟩ oneClassText oneClassParser = oneClassUnit :=
  Parser.readUnit_ofFiles (List.pairwise_singleton _ _) (List.mem_singleton_self oneClassFile)

theorem load_oneClassDisk :
    (Workspace.load (.forRoot ⟨"p"⟩) oneClassDisk.toDisk oneClassParser).answer = .ok oneClassProject := by
  have hroot : oneClassDisk.find? ⟨"p"⟩ = some (.directory [("a.ts", .file oneClassText.toUTF8)]) := by
    have hplace : oneClassDisk.locate? ⟨"p"⟩ = some ["p"] := by decide_cbv
    refine Option.bind_eq_some_iff.mpr ⟨["p"], hplace, ?_⟩
    exact Option.bind_eq_some_iff.mpr ⟨_, rfl, by simp [Node.isDirectory]⟩
  have hfiles : filesBelow ⟨"p"⟩ (.directory [("a.ts", .file oneClassText.toUTF8)]) =
      [⟨⟨"p/a.ts"⟩, ⟨"a.ts"⟩, oneClassText.toUTF8⟩] := by
    simp [filesBelow, Node.files, Node.leaves, Node.entryLeaves]
    decide
  have hselects : (FileFilter.ofPatterns [Request.defaultFiles] []).map (·.selects ⟨"a.ts"⟩) = .ok true := by
    decide +kernel
  cases hfilter : FileFilter.ofPatterns [Request.defaultFiles] [] with
  | error failure =>
    rw [hfilter] at hselects
    cases hselects
  | ok filter =>
    rw [hfilter] at hselects
    have hselected : filter.selects ⟨"a.ts"⟩ = true := Except.ok.inj hselects
    have hdiscover : discover filter oneClassDisk.toDisk ⟨"p"⟩ = .ok [⟨⟨"p/a.ts"⟩, ⟨"a.ts"⟩, oneClassText.toUTF8⟩] := by
      simp [discover, hroot, hfiles, hselected, -String.toUTF8_eq_toByteArray]
    simp [Workspace.load, Workspace.findFiles, Request.forRoot, hfilter, hdiscover, Workspace.readFiles,
      Workspace.readFile, Disk.fromUTF8?_toUTF8, Except.map, ofUnits_singleton, oneClassProject,
      readUnit_oneClass, -String.toUTF8_eq_toByteArray]

/-- The edits that are planned for the file can be applied. -/
theorem previewLog_oneClass {plan : Plan} (hplan : (planProject (.forRoot ⟨"p"⟩) oneClassProject).answer = .ok plan) :
    previewLog oneClassProject plan.log = .ok [⟨⟨"p/a.ts"⟩, oneClassText, oneClassMigrated⟩] := by
  have hu : oneClassUnit ∈ oneClassProject.units := List.mem_singleton.mpr rfl
  have hdistinct : oneClassProject.HasDistinctPaths := List.pairwise_singleton _ _
  have howns : ∀ v ∈ oneClassProject.units, v.OwnsClasses := by
    unfold SourceUnit.OwnsClasses
    decide +kernel
  obtain ⟨-, rfl⟩ := planProject_eq_ok_iff.mp hplan
  have hfiles : (Plan.ofClasses (.forRoot ⟨"p"⟩) (selectedClasses (.forRoot ⟨"p"⟩) oneClassProject.units)).log.files =
      [⟨"p/a.ts"⟩] := by
    decide +kernel
  have hunit : oneClassProject.unit? ⟨"p/a.ts"⟩ = some oneClassUnit := by decide +kernel
  have happly := apply_of_not_isEntangled hplan hdistinct howns hu oneClassFile.isReadFrom (by decide +kernel)
  have hmigrated : (Plan.ofClasses (.forRoot ⟨"p"⟩) (selectedClasses (.forRoot ⟨"p"⟩) oneClassProject.units)).log.apply
      ⟨"p/a.ts"⟩ oneClassUnit.text = .ok oneClassMigrated := by
    refine happly.trans (congrArg Except.ok ?_)
    rw [migratedText, show oneClassUnit.text.toList = _ from String.toList_ofList]
    decide +kernel
  rw [previewLog, hfiles]
  simp only [List.mapM_cons, List.mapM_nil, hunit, hmigrated]
  rfl

/-- The dry run over this directory shows what the run does: it imports the accessor, adds a field and removes the
parameter. -/
theorem dry_run_predicts_oneClass :
    let r := Request.forRoot ⟨"p"⟩
    let dry := run (Workspace.provider oneClassParser) (r.withDryRun true) oneClassDisk.toDisk
    let real := run (Workspace.provider oneClassParser) (r.withDryRun false) oneClassDisk.toDisk
    ∃ outcome outcome', dry.answer = .ok outcome ∧ real.answer = .ok outcome' ∧
      outcome.summary.modified = 1 ∧ outcome.log.size = 3 ∧
      outcome.previews = [⟨⟨"p/a.ts"⟩, oneClassText, oneClassMigrated⟩] ∧
      outcome'.summary.filesWritten = [⟨"p/a.ts"⟩] ∧ dry.state.readText? ⟨"p/a.ts"⟩ = some oneClassText ∧
      real.state.readText? ⟨"p/a.ts"⟩ = some oneClassMigrated ∧
      outcome.Predicts outcome' oneClassDisk.toDisk real.state := by
  intro r dry real
  have hglobs : (Selector.ofRequest r).isOk = true := by decide +kernel
  obtain ⟨plan, hplan, hplanEq⟩ := exists_plan hglobs oneClassProject
  have hpreviews := previewLog_oneClass hplan
  have hcounts : plan.modified = 1 ∧ plan.log.size = 3 := by
    rw [hplanEq]
    decide +kernel
  obtain ⟨hstate, hiff, -, hpredicts⟩ := dry_run_predicts_run oneClassParser r oneClassDisk
  have hdry : dry.answer = .ok ⟨⟨plan.modified, plan.skipped, plan.failures, plan.log.size, [], true,
      plan.failures.isEmpty⟩, plan.log, [⟨⟨"p/a.ts"⟩, oneClassText, oneClassMigrated⟩]⟩ := by
    refine (run_eq_settle (r := r.withDryRun true) load_oneClassDisk
      ((planProject_withDryRun r true _).trans hplan)).1.trans ?_
    simp [settle, Request.withDryRun, Workspace.provider, hpreviews, Except.map]
  obtain ⟨outcome', hreal⟩ := hiff.mp ⟨_, hdry⟩
  have hprediction := hpredicts _ _ hdry hreal
  refine ⟨_, outcome', hdry, hreal, hcounts.1, hcounts.2, rfl, hprediction.filesWritten_eq, ?_, ?_, hprediction⟩
  · rw [hstate]
    exact hprediction.showChanges.held _ List.mem_cons_self
  · exact hprediction.showChanges.holds _ List.mem_cons_self

end FieldInjection
