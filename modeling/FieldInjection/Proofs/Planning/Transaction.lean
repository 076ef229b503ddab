import FieldInjection.Proofs.Planning.Sum

/-!
# Refused classes leave nothing behind

A class that is refused has perhaps amended the import surface of its file before, and the classes behind it
would have relied on that. Since the log is cut back, they amend it again themselves, so a plan is the plan of
the project without its refused classes (`plan_without_refused`), and its edits are counted by the migrated
classes and the amended files alone.
-/

namespace FieldInjection

/-- The selected classes of a project that are migrated when it is planned. -/
def migratedClasses [GlobReader] (r : Request) (p : Project) : List (SourceUnit × ClassDecl) :=
  ((fates r p).filter fun x => x.2 = .migrated).map Prod.fst

/-- The selected classes of a project that are refused when it is planned. -/
def refusedClasses [GlobReader] (r : Request) (p : Project) : List (SourceUnit × ClassDecl) :=
  ((fates r p).filter fun x => x.2.refusal?.isSome).map Prod.fst

/-- A unit with other classes. -/
def SourceUnit.withClasses (u : SourceUnit) (cs : List ClassDecl) : SourceUnit := { u with classes := cs }

/-- A project without some of its classes. -/
def Project.without (p : Project) (xs : List (SourceUnit × ClassDecl)) : Project :=
  { p with units := p.units.map fun u => u.withClasses (u.classes.filter fun c => (u, c) ∉ xs) }

section
variable {r : Request} {p : Project} {u : SourceUnit} {c : ClassDecl}

/-! ## The classes of a project and of its files -/

theorem mem_of_mem_selectedIn [GlobReader] (hc : c ∈ selectedIn r u) : c ∈ u.classes := by
  unfold selectedIn at hc
  split at hc
  · exact (List.mem_filter.mp hc).1
  · cases hc

theorem mem_selectedClasses [GlobReader] {us : List SourceUnit} :
    (u, c) ∈ selectedClasses r us ↔ u ∈ us ∧ c ∈ selectedIn r u := by
  simp only [selectedClasses, List.mem_flatMap, List.mem_map, Prod.mk.injEq]
  constructor
  · rintro ⟨u', hu, c', hc, rfl, rfl⟩
    exact ⟨hu, hc⟩
  · rintro ⟨hu, hc⟩
    exact ⟨u, hu, c, hc, rfl, rfl⟩

theorem mem_refusedClasses [GlobReader] (hdistinct : p.HasDistinctPaths) : (u, c) ∈ refusedClasses r p ↔
    (u ∈ p.units ∧ c ∈ selectedIn r u) ∧ (fateOf r u c).refusal?.isSome = true := by
  rw [refusedClasses, fates_eq hdistinct, List.filter_map, List.map_map, ← mem_selectedClasses]
  simp [Function.comp_def]

/-- The migrated classes of a project are those of its files. -/
theorem migratedClasses_eq [GlobReader] (hdistinct : p.HasDistinctPaths) : migratedClasses r p =
    p.units.flatMap fun u => (migratedAmong r u (selectedIn r u)).map fun c => (u, c) := by
  rw [migratedClasses, fates_eq hdistinct, List.filter_map, List.map_map, selectedClasses,
    List.filter_flatMap, List.map_flatMap]
  simp only [List.filter_map, migratedAmong, List.map_map, Function.comp_def]

/-! ## Leaving classes out -/

theorem selectedIn_withClasses [GlobReader] (keep : ClassDecl → Bool) :
    selectedIn r (u.withClasses (u.classes.filter keep)) = (selectedIn r u).filter keep := by
  unfold selectedIn
  cases Selector.ofRequest r with
  | error failure => rfl
  | ok s =>
    show (u.classes.filter keep).filter (s.selects u) = (u.classes.filter (s.selects u)).filter keep
    rw [List.filter_filter, List.filter_filter]
    -- whether a class is selected depends on its file's path and its name, not on the classes beside it
    congr 1
    funext c
    exact Bool.and_comm _ _

/-- What stays of the selected classes of a file when the refused ones are left out. -/
theorem selectedIn_without [GlobReader] (hdistinct : p.HasDistinctPaths) (hu : u ∈ p.units) :
    selectedIn r (u.withClasses (u.classes.filter fun c => (u, c) ∉ refusedClasses r p)) =
      (selectedIn r u).filter fun c => (fateOf r u c).refusal?.isNone := by
  rw [selectedIn_withClasses]
  apply List.filter_congr
  intro c hc
  rw [Bool.eq_iff_iff]
  simp [mem_refusedClasses hdistinct, hu, hc]

theorem migratedAmong_filter (cs : List ClassDecl) :
    migratedAmong r u (cs.filter fun c => (fateOf r u c).refusal?.isNone) = migratedAmong r u cs := by
  unfold migratedAmong
  rw [List.filter_filter]
  apply List.filter_congr
  intro c _
  cases fateOf r u c <;> simp [Fate.refusal?]

theorem failuresAmong_filter (cs : List ClassDecl) :
    failuresAmong r u (cs.filter fun c => (fateOf r u c).refusal?.isNone) = [] := by
  unfold failuresAmong
  rw [List.filterMap_eq_nil_iff]
  intro c hc
  have := (List.mem_filter.mp hc).2
  simp_all

theorem countP_skipped_filter (cs : List ClassDecl) :
    (cs.filter fun c => (fateOf r u c).refusal?.isNone).countP (fun c => fateOf r u c = .skipped) =
      cs.countP fun c => fateOf r u c = .skipped := by
  rw [List.countP_filter]
  apply List.countP_congr
  intro c _
  cases fateOf r u c <;> simp [Fate.refusal?]

theorem without_hasDistinctPaths (hdistinct : p.HasDistinctPaths) (xs : List (SourceUnit × ClassDecl)) :
    (p.without xs).HasDistinctPaths := by
  unfold Project.HasDistinctPaths Project.without
  rw [List.pairwise_map]
  exact hdistinct

/-- A unit without the classes that are refused when its project is planned. -/
def SourceUnit.withoutRefused [GlobReader] (r : Request) (p : Project) (u : SourceUnit) : SourceUnit :=
  u.withClasses (u.classes.filter fun c => (u, c) ∉ refusedClasses r p)

theorem migratedAmong_withoutRefused [GlobReader] (hdistinct : p.HasDistinctPaths) (hu : u ∈ p.units) :
    migratedAmong r (u.withoutRefused r p) (selectedIn r (u.withoutRefused r p)) =
      migratedAmong r u (selectedIn r u) := by
  have hselected := selectedIn_without (r := r) hdistinct hu
  unfold SourceUnit.withoutRefused
  rw [hselected]
  exact migratedAmong_filter _

theorem fileEdits_withoutRefused [GlobReader] (hdistinct : p.HasDistinctPaths) (hu : u ∈ p.units) :
    fileEdits r (u.withoutRefused r p) (selectedIn r (u.withoutRefused r p)) =
      fileEdits r u (selectedIn r u) := by
  rw [fileEdits_eq, fileEdits_eq, importEditsTaken, importEditsTaken,
    migratedAmong_withoutRefused hdistinct hu]
  rfl

/-- Leaving the refused classes out changes nothing of a plan, but that nothing fails. -/
theorem ofClasses_without [GlobReader] (hdistinct : p.HasDistinctPaths) :
    Plan.ofClasses r (selectedClasses r (p.without (refusedClasses r p)).units) =
      { Plan.ofClasses r (selectedClasses r p.units) with failures := [] } := by
  -- both plans are sums over the same files, so they are compared file by file
  have hunits : (p.without (refusedClasses r p)).units = p.units.map (SourceUnit.withoutRefused r p) := rfl
  have hselected : ∀ u ∈ p.units, selectedIn r (u.withoutRefused r p) =
      (selectedIn r u).filter fun c => (fateOf r u c).refusal?.isNone :=
    fun u hu => selectedIn_without hdistinct hu
  have hedits : p.units.map (fun u => fileEdits r (u.withoutRefused r p)
        (selectedIn r (u.withoutRefused r p))) =
      p.units.map fun u => fileEdits r u (selectedIn r u) :=
    List.map_congr_left fun u hu => fileEdits_withoutRefused hdistinct hu
  have hmigrated : p.units.map (fun u => (migratedAmong r (u.withoutRefused r p)
        (selectedIn r (u.withoutRefused r p))).length) =
      p.units.map fun u => (migratedAmong r u (selectedIn r u)).length :=
    List.map_congr_left fun u hu => by rw [migratedAmong_withoutRefused hdistinct hu]
  have hskipped : p.units.map (fun u => (selectedIn r (u.withoutRefused r p)).countP
        fun c => fateOf r (u.withoutRefused r p) c = .skipped) =
      p.units.map fun u => (selectedIn r u).countP fun c => fateOf r u c = .skipped :=
    List.map_congr_left fun u hu => by
      rw [hselected u hu]
      exact countP_skipped_filter _
  have hfailures : p.units.flatMap (fun u => failuresAmong r (u.withoutRefused r p)
      (selectedIn r (u.withoutRefused r p))) = [] := by
    rw [List.flatMap_eq_nil_iff]
    intro u hu
    rw [hselected u hu]
    exact failuresAmong_filter _
  rw [ofClasses_eq hdistinct, ofClasses_eq (without_hasDistinctPaths hdistinct _), hunits]
  simp only [Plan.grow, List.flatMap_map, List.map_map, Function.comp_def, hmigrated, hskipped, hfailures]
  rw [List.flatMap_def, hedits, ← List.flatMap_def]
  rfl

/-! ## Counting -/

/-- Every class has one fate. -/
theorem length_eq_sum_of_fates (cs : List ClassDecl) :
    (migratedAmong r u cs).length + cs.countP (fun c => fateOf r u c = .skipped) +
      (failuresAmong r u cs).length = cs.length := by
  induction cs with
  | nil => rfl
  | cons c cs ih =>
    rw [failuresAmong_cons]
    cases hf : fateOf r u c with
    | skipped =>
      rw [migratedAmong_cons_other (by simp [hf])]
      simp [hf, Fate.refusal?]
      omega
    | migrated =>
      rw [migratedAmong_cons_migrated hf]
      simp [hf, Fate.refusal?]
      omega
    | refused refusal =>
      rw [migratedAmong_cons_other (by simp [hf])]
      simp [hf, Fate.refusal?]
      omega

/-- A plan counts every selected class once. -/
theorem counts_eq_length [GlobReader] (hdistinct : p.HasDistinctPaths) :
    let plan := Plan.ofClasses r (selectedClasses r p.units)
    plan.modified + plan.skipped + plan.failures.length = (selectedClasses r p.units).length := by
  intro plan
  simp only [plan, ofClasses_eq hdistinct, Plan.grow, Plan.empty, selectedClasses]
  induction p.units with
  | nil => rfl
  | cons u us ih =>
    have := length_eq_sum_of_fates (r := r) (u := u) (selectedIn r u)
    simp only [List.map_cons, List.sum_cons, List.flatMap_cons, List.nil_append, List.length_append,
      List.length_map] at ih ⊢
    omega

/-- The failures of a plan are the reports of the refused classes, in the order of selection. -/
theorem failures_eq [GlobReader] (hdistinct : p.HasDistinctPaths) :
    (Plan.ofClasses r (selectedClasses r p.units)).failures =
      (fates r p).filterMap fun x =>
        x.2.refusal?.map fun refusal => .ofRefusal x.1.2.file x.1.2.name refusal := by
  rw [ofClasses_eq hdistinct, fates_eq hdistinct, List.filterMap_map, selectedClasses,
    List.filterMap_flatMap]
  simp only [Plan.grow, Plan.empty, List.nil_append, List.filterMap_map, failuresAmong]
  rfl

/-- The edits of some files are their import edits and those of their migrated classes. -/
theorem length_fileEdits (us : List SourceUnit) (chosen : SourceUnit → List ClassDecl) :
    (us.flatMap fun u => fileEdits r u (chosen u)).length =
      ((us.flatMap fun u => (migratedAmong r u (chosen u)).map fun c => (u, c)).map
        fun x => 1 + x.2.parameters.length).sum +
      us.countP fun u => !(importEditsTaken r u (chosen u)).isEmpty := by
  induction us with
  | nil => rfl
  | cons u us ih =>
    have hmembers : ((migratedAmong r u (chosen u)).flatMap (classEdits r)).length =
        ((migratedAmong r u (chosen u)).map fun c => 1 + c.parameters.length).sum := by
      rw [List.length_flatMap]
      congr 1
      apply List.map_congr_left
      intro c hc
      exact length_classEdits (by simpa using (List.mem_filter.mp hc).2)
    -- a file takes at most one import edit, so counting edits and counting files is the same
    have himport : (importEditsTaken r u (chosen u)).length =
        if (importEditsTaken r u (chosen u)).isEmpty then 0 else 1 := by
      have hle : (importEditsTaken r u (chosen u)).length ≤ 1 := by
        unfold importEditsTaken
        split
        · simp
        · exact length_importEdits_le
      split
      · simp_all
      · rename_i hne
        have := List.length_pos_iff.mpr (List.isEmpty_eq_false_iff.mp (by simpa using hne))
        omega
    rw [List.flatMap_cons, List.length_append, ih, fileEdits_eq, List.length_append, hmembers, himport,
      List.flatMap_cons, List.map_append, List.sum_append_nat, List.countP_cons, List.map_map]
    simp only [Function.comp_def, Bool.not_eq_true']
    split <;> simp_all <;> omega

/-- The edits of a plan, counted by the migrated classes and the files that gain an import edit. -/
theorem size_eq [GlobReader] (hdistinct : p.HasDistinctPaths) :
    let plan := Plan.ofClasses r (selectedClasses r p.units)
    plan.log.size = ((migratedClasses r p).map fun x => 1 + x.2.parameters.length).sum +
      p.units.countP fun u => plan.log.addsImport u.path r.accessorModule r.accessorFunction := by
  intro plan
  have hsize : plan.log.size = (p.units.flatMap fun u => fileEdits r u (selectedIn r u)).length := by
    simp only [plan, ofClasses_eq hdistinct, Plan.log_grow, EditLog.size]
    rfl
  rw [hsize, length_fileEdits, migratedClasses_eq hdistinct]
  -- a file takes its import edit exactly if the log adds the accessor to it
  congr 1
  apply List.countP_congr
  intro u hu
  rw [addsImport_eq, filter_importsAccessor_plan hdistinct hu]

/-- What a plan and the plan without its refused classes have in common, and how the plan accounts for the
selected classes. -/
structure AccountsForClasses [GlobReader] (r : Request) (p : Project) (plan again : Plan) : Prop where
  log_eq : again.log = plan.log
  modified_eq : again.modified = plan.modified
  skipped_eq : again.skipped = plan.skipped
  failures_eq_nil : again.failures = []
  selected_eq : (fates r p).map Prod.fst = selectedClasses r p.units
  counts_eq : plan.modified + plan.skipped + plan.failures.length = (selectedClasses r p.units).length
  failures_eq : plan.failures = (fates r p).filterMap fun x =>
    x.2.refusal?.map fun refusal => .ofRefusal x.1.2.file x.1.2.name refusal
  size_eq : plan.log.size = ((migratedClasses r p).map fun x => 1 + x.2.parameters.length).sum +
    p.units.countP fun u => plan.log.addsImport u.path r.accessorModule r.accessorFunction

/--
**Refused classes leave nothing behind**: the project without the classes that are refused has the same plan,
but that nothing fails. Every selected class is migrated, skipped or refused, the failures stand in the order of
selection, and the log holds for every migrated class one edit for its fields and one for each parameter, and
one import edit for each file that needs it.
-/
theorem plan_without_refused [GlobReader] (hglobs : (Selector.ofRequest r).isOk = true)
    (hdistinct : p.HasDistinctPaths) :
    ∃ plan again, (planProject r p).answer = .ok plan ∧
      (planProject r (p.without (refusedClasses r p))).answer = .ok again ∧
      AccountsForClasses r p plan again := by
  obtain ⟨plan, hplan, rfl⟩ := exists_plan hglobs p
  obtain ⟨again, hagain, rfl⟩ := exists_plan hglobs (p.without (refusedClasses r p))
  refine ⟨_, _, hplan, hagain, ?_⟩
  rw [ofClasses_without hdistinct]
  exact {
    log_eq := rfl
    modified_eq := rfl
    skipped_eq := rfl
    failures_eq_nil := rfl
    selected_eq := by rw [fates_eq hdistinct, List.map_map]; exact List.map_id _
    counts_eq := counts_eq_length hdistinct
    failures_eq := failures_eq hdistinct
    size_eq := size_eq hdistinct }

/-- A file with a class that is refused after its import edit was recorded, and one that is migrated. -/
def restAndPlain : SourceUnit where
  path := ⟨"/p/a.ts"⟩
  relativePath := ⟨"a.ts"⟩
  text := "import \x7b C \x7d from '@angular/core';\n" ++
    "class AComponent \x7b constructor(...a: A) \x7b\x7d \x7d\n" ++
    "class BComponent \x7b constructor(b: B) \x7b\x7d \x7d\n"
  classes := [
    ⟨"AComponent", ⟨"/p/a.ts"⟩, ⟨35, 79⟩, 53, "    ", true, .lf,
      some ⟨[⟨"a", .rest, some "A", false, false, none, [], ⟨66, 73⟩⟩], ⟨66, 73⟩, 0⟩⟩,
    ⟨"BComponent", ⟨"/p/a.ts"⟩, ⟨80, 121⟩, 98, "    ", true, .lf,
      some ⟨[⟨"b", .identifier, some "B", false, false, none, [], ⟨111, 115⟩⟩], ⟨111, 115⟩, 0⟩⟩]
  imports := [⟨"@angular/core", ["C"], [], false, ⟨0, 34⟩, .afterLastSpecifier 10⟩]
  hasSyntaxErrors := false

/-- The project of that file. -/
def restAndPlainProject : Project := ⟨⟨"/p"⟩, [restAndPlain]⟩

/-- The import edit that the refused class recorded is cut off, and the class behind it records it again. -/
theorem plan_without_refused_rest :
    (Selector.ofRequest (.forRoot ⟨"/p"⟩)).isOk = true ∧ restAndPlainProject.HasDistinctPaths ∧
      refusedClasses (.forRoot ⟨"/p"⟩) restAndPlainProject ≠ [] ∧
      ∃ plan again, (planProject (.forRoot ⟨"/p"⟩) restAndPlainProject).answer = .ok plan ∧
        (planProject (.forRoot ⟨"/p"⟩) (restAndPlainProject.without
          (refusedClasses (.forRoot ⟨"/p"⟩) restAndPlainProject))).answer = .ok again ∧
        AccountsForClasses (.forRoot ⟨"/p"⟩) restAndPlainProject plan again :=
  have hglobs : (Selector.ofRequest (.forRoot ⟨"/p"⟩)).isOk = true := by decide +kernel
  have hdistinct : restAndPlainProject.HasDistinctPaths := List.pairwise_singleton _ _
  ⟨hglobs, hdistinct, by decide +kernel, plan_without_refused hglobs hdistinct⟩

end

end FieldInjection
