import Mathlib.Algebra.GroupWithZero.Nat
import FieldInjection.Proofs.Planning.Fate

/-!
# A plan as a sum over files

Planning walks over all selected classes with one log, and each class is decided with the log that the ones
before it left. The outcome is nevertheless the sum of what the files contribute one by one: the log is the
concatenation of `fileEdits`, the counts and the failures are those of `fateOf`.

The invariant behind this is `IsAmendedSoundly`. Within a file the first migrated class brings the import edit,
after which nothing remains of it (`remainingImportEdits_extend`); a file with another path is not touched by
it (`isUntouched_extend`).

Main results: `ofClasses_eq` for a plan, `fates_eq` for the classes of a project one by one.
-/

namespace FieldInjection

/-- The units of the project have different paths. -/
def Project.HasDistinctPaths (p : Project) : Prop :=
  p.units.Pairwise fun u v => u.path.same v.path = false

/-- The classes of a unit carry its path. -/
def SourceUnit.OwnsClasses (u : SourceUnit) : Prop := ∀ c ∈ u.classes, c.file.same u.path = true

/-- The classes of a unit that a request selects; none if its globs are not valid. -/
def selectedIn [GlobReader] (r : Request) (u : SourceUnit) : List ClassDecl :=
  match Selector.ofRequest r with
  | .ok s => u.classes.filter (s.selects u)
  | .error _ => []

/-- The classes of some units that a request selects, with their units. -/
def selectedClasses [GlobReader] (r : Request) (us : List SourceUnit) : List (SourceUnit × ClassDecl) :=
  us.flatMap fun u => (selectedIn r u).map fun c => (u, c)

/-- Some classes with what becomes of them when they are planned in turn after those of a plan. -/
def fatesFrom (r : Request) (p : Plan) :
    List (SourceUnit × ClassDecl) → List ((SourceUnit × ClassDecl) × Fate)
  | [] => []
  | x :: xs => (x, (judge r p.log x.1 x.2).fate) :: fatesFrom r (p.add r x) xs

/-- The selected classes of a project with what becomes of them when it is planned. -/
def fates [GlobReader] (r : Request) (p : Project) : List ((SourceUnit × ClassDecl) × Fate) :=
  fatesFrom r .empty (selectedClasses r p.units)

/-- The classes among some classes of a file that are migrated. -/
def migratedAmong (r : Request) (u : SourceUnit) (cs : List ClassDecl) : List ClassDecl :=
  cs.filter fun c => fateOf r u c = .migrated

/-- The reports of the classes among some classes of a file that are refused. -/
def failuresAmong (r : Request) (u : SourceUnit) (cs : List ClassDecl) : List ClassFailure :=
  cs.filterMap fun c => (fateOf r u c).refusal?.map fun refusal => .ofRefusal c.file c.name refusal

/-- The edits that some classes of a file take when `imported` are those that its import surface still needs:
nothing if none of them is migrated. -/
def editsBehind (r : Request) (u : SourceUnit) (imported : List PlannedEdit) (cs : List ClassDecl) :
    List PlannedEdit :=
  if (migratedAmong r u cs).isEmpty then []
  else imported ++ (migratedAmong r u cs).flatMap (classEdits r)

/-- The edits that some classes of a file take. -/
def fileEdits (r : Request) (u : SourceUnit) (cs : List ClassDecl) : List PlannedEdit :=
  editsBehind r u (importEdits r u) cs

namespace Plan

/-- A plan with more edits, counts and failures. -/
def grow (p : Plan) (es : List PlannedEdit) (modified skipped : Nat) (failures : List ClassFailure) :
    Plan :=
  ⟨p.log.extend es, p.modified + modified, p.skipped + skipped, p.failures ++ failures⟩

@[simp] theorem log_grow (p : Plan) (es : List PlannedEdit) (m s : Nat) (fs : List ClassFailure) :
    (p.grow es m s fs).log = p.log.extend es := rfl

@[simp] theorem grow_zero (p : Plan) : p.grow [] 0 0 [] = p := by
  simp [grow]

@[simp] theorem grow_grow (p : Plan) (es es' : List PlannedEdit) (m m' s s' : Nat)
    (fs fs' : List ClassFailure) :
    (p.grow es m s fs).grow es' m' s' fs' = p.grow (es ++ es') (m + m') (s + s') (fs ++ fs') := by
  simp [grow, Nat.add_assoc]

theorem settle_skipped (r : Request) (p : Plan) (u : SourceUnit) (c : ClassDecl) :
    p.settle r u c .skipped = p.grow [] 0 1 [] := by
  simp [settle, grow]

theorem settle_migrated (r : Request) (p : Plan) (u : SourceUnit) (c : ClassDecl) :
    p.settle r u c .migrated =
      p.grow (remainingImportEdits r p.log u ++ classEdits r c) 1 0 [] := by
  simp [settle, grow]

theorem settle_refused (r : Request) (p : Plan) (u : SourceUnit) (c : ClassDecl) (refusal : Refusal) :
    p.settle r u c (.refused refusal) = p.grow [] 0 0 [.ofRefusal c.file c.name refusal] := by
  simp [settle, grow]

end Plan

section
variable {r : Request} {u v : SourceUnit} {log : EditLog}

/-! ## What edits say of imports -/

/-- The members of classes add no import to any file. -/
theorem addsImport_flatMap_classEdits (cs : List ClassDecl) (file : Path) (moduleName name : String) :
    (⟨cs.flatMap (classEdits r)⟩ : EditLog).addsImport file moduleName name = false := by
  unfold EditLog.addsImport
  rw [List.any_eq_false]
  intro e he
  obtain ⟨c, -, hc⟩ := List.mem_flatMap.mp he
  have := (mem_classEdits hc).2 moduleName name
  simp [this]

theorem addsImport_classEdits (c : ClassDecl) (file : Path) (moduleName name : String) :
    (⟨classEdits r c⟩ : EditLog).addsImport file moduleName name = false := by
  have hone := addsImport_flatMap_classEdits (r := r) [c] file moduleName name
  rwa [List.flatMap_singleton] at hone

/-- A file with an import edit has it added. -/
theorem addsImport_importEdits (h : importEdits r u ≠ []) :
    (⟨importEdits r u⟩ : EditLog).addsImport u.path r.accessorModule r.accessorFunction = true := by
  obtain ⟨e, he⟩ := List.exists_mem_of_ne_nil _ h
  obtain ⟨hfile, hpurpose, -⟩ := mem_importEdits he
  exact List.any_eq_true.mpr ⟨e, he, by simp [hfile, hpurpose]⟩

/-- The import edit of a file adds no import to a file with another path. -/
theorem addsImport_importEdits_other (h : u.path.same v.path = false) (moduleName name : String) :
    (⟨importEdits r u⟩ : EditLog).addsImport v.path moduleName name = false := by
  unfold EditLog.addsImport
  rw [List.any_eq_false]
  intro e he
  simp [(mem_importEdits he).1, h]

/-! ## One class after another -/

theorem migratedAmong_cons_migrated {c : ClassDecl} (h : fateOf r u c = .migrated) (cs : List ClassDecl) :
    migratedAmong r u (c :: cs) = c :: migratedAmong r u cs := by
  simp [migratedAmong, h]

theorem migratedAmong_cons_other {c : ClassDecl} (h : fateOf r u c ≠ .migrated) (cs : List ClassDecl) :
    migratedAmong r u (c :: cs) = migratedAmong r u cs := by
  simp [migratedAmong, h]

theorem failuresAmong_cons (c : ClassDecl) (cs : List ClassDecl) :
    failuresAmong r u (c :: cs) =
      ((fateOf r u c).refusal?.map fun refusal => ClassFailure.ofRefusal c.file c.name refusal).toList ++
        failuresAmong r u cs := by
  unfold failuresAmong
  rw [List.filterMap_cons]
  cases (fateOf r u c).refusal? <;> rfl

theorem editsBehind_nil (cs : List ClassDecl) :
    editsBehind r u [] cs = (migratedAmong r u cs).flatMap (classEdits r) := by
  unfold editsBehind
  split
  · rename_i hempty
    simp [List.isEmpty_iff.mp hempty]
  · simp

theorem editsBehind_cons_migrated {c : ClassDecl} (h : fateOf r u c = .migrated)
    (imported : List PlannedEdit) (cs : List ClassDecl) :
    editsBehind r u imported (c :: cs) = imported ++ classEdits r c ++ editsBehind r u [] cs := by
  rw [editsBehind_nil, editsBehind, migratedAmong_cons_migrated h]
  simp

theorem editsBehind_cons_other {c : ClassDecl} (h : fateOf r u c ≠ .migrated)
    (imported : List PlannedEdit) (cs : List ClassDecl) :
    editsBehind r u imported (c :: cs) = editsBehind r u imported cs := by
  rw [editsBehind, migratedAmong_cons_other h, editsBehind]

/-! ## One file -/

/-- Once a class of a file is migrated, nothing remains of its import edit. -/
theorem remainingImportEdits_extend (c : ClassDecl) :
    remainingImportEdits r (log.extend (remainingImportEdits r log u ++ classEdits r c)) u = [] := by
  rw [← EditLog.extend_extend]
  unfold remainingImportEdits
  rw [EditLog.addsImport_extend, addsImport_classEdits, Bool.or_false, EditLog.addsImport_extend]
  by_cases ha : log.addsImport u.path r.accessorModule r.accessorFunction = true
  · simp [ha]
  · -- what remained is the import edit of the file, which the log now has
    by_cases hi : importEdits r u = []
    · simp [hi]
    · simp [ha, addsImport_importEdits hi]

theorem isAmendedSoundly_migrated (h : IsAmendedSoundly r log u) (c : ClassDecl) :
    IsAmendedSoundly r (log.extend (remainingImportEdits r log u ++ classEdits r c)) u := by
  rw [← EditLog.extend_extend]
  intro hadds
  rw [EditLog.addsImport_extend, addsImport_classEdits, Bool.or_false, EditLog.addsImport_extend,
    Bool.or_eq_true] at hadds
  rcases hadds with hlog | hnew
  · exact h hlog
  · intro hi
    simp [remainingImportEdits, hi, EditLog.addsImport] at hnew

/-- Planning some classes of one file. -/
theorem foldl_add_file (cs : List ClassDecl) (p : Plan) (h : IsAmendedSoundly r p.log u) :
    (cs.map fun c => (u, c)).foldl (Plan.add r) p =
      p.grow (editsBehind r u (remainingImportEdits r p.log u) cs) (migratedAmong r u cs).length
        (cs.countP fun c => fateOf r u c = .skipped) (failuresAmong r u cs) ∧
    fatesFrom r p (cs.map fun c => (u, c)) = cs.map fun c => ((u, c), fateOf r u c) := by
  -- the walk keeps `IsAmendedSoundly`, which is all that deciding on the next class needs to know of the log
  induction cs generalizing p with
  | nil => simp [editsBehind, migratedAmong, failuresAmong, fatesFrom]
  | cons c cs ih =>
    simp only [List.map_cons, List.foldl_cons, fatesFrom, judge_fate h, add_eq p h]
    cases hf : fateOf r u c with
    | skipped =>
      have hne : fateOf r u c ≠ .migrated := by simp [hf]
      rw [Plan.settle_skipped]
      obtain ⟨hplan, hfates⟩ := ih (p.grow [] 0 1 []) (by simpa using h)
      rw [hplan, hfates, editsBehind_cons_other hne, migratedAmong_cons_other hne, failuresAmong_cons]
      simp [hf, Fate.refusal?, Nat.add_comm]
    | migrated =>
      -- this class brings what remains of the import edit, those behind it bring none
      rw [Plan.settle_migrated]
      obtain ⟨hplan, hfates⟩ := ih (p.grow (remainingImportEdits r p.log u ++ classEdits r c) 1 0 [])
        (by simpa using isAmendedSoundly_migrated h c)
      rw [hplan, hfates, editsBehind_cons_migrated hf, migratedAmong_cons_migrated hf, failuresAmong_cons]
      simp [remainingImportEdits_extend, hf, Fate.refusal?, Nat.add_comm]
    | refused refusal =>
      have hne : fateOf r u c ≠ .migrated := by simp [hf]
      rw [Plan.settle_refused]
      obtain ⟨hplan, hfates⟩ := ih (p.grow [] 0 0 [.ofRefusal c.file c.name refusal]) (by simpa using h)
      rw [hplan, hfates, editsBehind_cons_other hne, migratedAmong_cons_other hne, failuresAmong_cons]
      simp [hf, Fate.refusal?]

/-! ## All files -/

/-- No file of some units has an import edit in the log. -/
def IsUntouched (r : Request) (log : EditLog) (us : List SourceUnit) : Prop :=
  ∀ u ∈ us, log.addsImport u.path r.accessorModule r.accessorFunction = false

/-- The edits of a file add no import to a file with another path. -/
theorem addsImport_fileEdits_other (h : u.path.same v.path = false) (cs : List ClassDecl)
    (moduleName name : String) :
    (⟨fileEdits r u cs⟩ : EditLog).addsImport v.path moduleName name = false := by
  unfold fileEdits editsBehind
  split
  · rfl
  · have hsum := EditLog.addsImport_extend ⟨importEdits r u⟩
      ((migratedAmong r u cs).flatMap (classEdits r)) v.path moduleName name
    rw [addsImport_importEdits_other h, addsImport_flatMap_classEdits] at hsum
    exact hsum

theorem isUntouched_extend {us : List SourceUnit} (h : IsUntouched r log us)
    (hother : ∀ v ∈ us, u.path.same v.path = false) (cs : List ClassDecl) :
    IsUntouched r (log.extend (fileEdits r u cs)) us := by
  intro v hv
  rw [EditLog.addsImport_extend, h v hv, addsImport_fileEdits_other (hother v hv), Bool.or_self]

theorem fatesFrom_append (xs ys : List (SourceUnit × ClassDecl)) (p : Plan) :
    fatesFrom r p (xs ++ ys) = fatesFrom r p xs ++ fatesFrom r (xs.foldl (Plan.add r) p) ys := by
  induction xs generalizing p with
  | nil => rfl
  | cons x xs ih => simp [fatesFrom, ih]

/-- Planning classes of some files, chosen by `chosen`, file by file. -/
theorem foldl_add_files (chosen : SourceUnit → List ClassDecl) (us : List SourceUnit) (p : Plan)
    (hdistinct : us.Pairwise fun u v => u.path.same v.path = false) (h : IsUntouched r p.log us) :
    (us.flatMap fun u => (chosen u).map fun c => (u, c)).foldl (Plan.add r) p =
      p.grow (us.flatMap fun u => fileEdits r u (chosen u))
        (us.map fun u => (migratedAmong r u (chosen u)).length).sum
        (us.map fun u => (chosen u).countP fun c => fateOf r u c = .skipped).sum
        (us.flatMap fun u => failuresAmong r u (chosen u)) ∧
    fatesFrom r p (us.flatMap fun u => (chosen u).map fun c => (u, c)) =
      us.flatMap fun u => (chosen u).map fun c => ((u, c), fateOf r u c) := by
  -- the files ahead stay untouched, so each starts with its whole import edit still to come
  induction us generalizing p with
  | nil => simp [fatesFrom]
  | cons u us ih =>
    obtain ⟨hother, hrest⟩ := List.pairwise_cons.mp hdistinct
    have hu : p.log.addsImport u.path r.accessorModule r.accessorFunction = false :=
      h u List.mem_cons_self
    have hsound : IsAmendedSoundly r p.log u := by
      intro hadds
      simp [hu] at hadds
    obtain ⟨hplan, hfates⟩ := foldl_add_file (chosen u) p hsound
    have hremaining : remainingImportEdits r p.log u = importEdits r u := by
      simp [remainingImportEdits, hu]
    rw [hremaining] at hplan
    have huntouched : IsUntouched r (p.log.extend (fileEdits r u (chosen u))) us :=
      isUntouched_extend (fun v hv => h v (List.mem_cons_of_mem u hv)) hother (chosen u)
    obtain ⟨hplans, hallFates⟩ := ih (p.grow (fileEdits r u (chosen u))
      (migratedAmong r u (chosen u)).length ((chosen u).countP fun c => fateOf r u c = .skipped)
      (failuresAmong r u (chosen u))) hrest huntouched
    rw [← fileEdits] at hplan
    rw [List.flatMap_cons, List.foldl_append, fatesFrom_append, hfates, hplan, hplans, hallFates]
    simp

/-! ## What the edits say of one file -/

/-- Of what the files of a list contribute, only that of one file remains if the others contribute nothing. -/
theorem flatMap_eq_of_others_nil {β : Type} {us : List SourceUnit} {f : SourceUnit → List β}
    (hdistinct : us.Pairwise fun u v => u.path.same v.path = false) (hu : u ∈ us)
    (hothers : ∀ v ∈ us, v.path.same u.path = false → f v = []) : us.flatMap f = f u := by
  induction us with
  | nil => cases hu
  | cons v us ih =>
    obtain ⟨hfirst, hrest⟩ := List.pairwise_cons.mp hdistinct
    rw [List.flatMap_cons]
    rcases List.mem_cons.mp hu with rfl | hu
    · -- the file is the first one, and every file behind it has another path
      have htail : us.flatMap f = [] := by
        rw [List.flatMap_eq_nil_iff]
        intro w hw
        exact hothers w (List.mem_cons_of_mem u hw) (by rw [Path.same_comm]; exact hfirst w hw)
      rw [htail, List.append_nil]
    · rw [hothers v List.mem_cons_self (hfirst u hu), List.nil_append]
      exact ih hrest hu fun w hw => hothers w (List.mem_cons_of_mem v hw)

/-- The import edit that some classes of a file cause. -/
def importEditsTaken (r : Request) (u : SourceUnit) (cs : List ClassDecl) : List PlannedEdit :=
  if (migratedAmong r u cs).isEmpty then [] else importEdits r u

theorem fileEdits_eq (cs : List ClassDecl) :
    fileEdits r u cs = importEditsTaken r u cs ++ (migratedAmong r u cs).flatMap (classEdits r) := by
  unfold fileEdits editsBehind importEditsTaken
  split
  · rename_i hempty
    simp [List.isEmpty_iff.mp hempty]
  · rfl

theorem mem_importEditsTaken {cs : List ClassDecl} {e : PlannedEdit} (he : e ∈ importEditsTaken r u cs) :
    e ∈ importEdits r u := by
  unfold importEditsTaken at he
  split at he
  · cases he
  · exact he

/-- A file has one import edit at most. -/
theorem importEditsTaken_cases (cs : List ClassDecl) :
    importEditsTaken r u cs = [] ∨ ∃ e ∈ importEdits r u, importEditsTaken r u cs = [e] := by
  have hlength := length_importEdits_le (r := r) (u := u)
  unfold importEditsTaken
  split
  · exact Or.inl rfl
  · match hedits : importEdits r u with
    | [] => exact Or.inl rfl
    | [e] => exact Or.inr ⟨e, List.mem_singleton_self e, rfl⟩
    | e :: e' :: es =>
      rw [hedits, List.length_cons, List.length_cons] at hlength
      omega

/-- The edit adds the accessor to a file. -/
def PlannedEdit.importsAccessorInto (r : Request) (file : Path) (e : PlannedEdit) : Bool :=
  e.file.same file && e.purpose == .addNamedImport r.accessorModule r.accessorFunction

theorem addsImport_eq (log : EditLog) (file : Path) :
    log.addsImport file r.accessorModule r.accessorFunction =
      !(log.edits.filter (PlannedEdit.importsAccessorInto r file)).isEmpty := by
  rw [Bool.eq_iff_iff]
  simp [EditLog.addsImport, PlannedEdit.importsAccessorInto]

/-- Among the edits of its own file, only the import edit adds the accessor. -/
theorem filter_importsAccessor_fileEdits (cs : List ClassDecl) :
    (fileEdits r u cs).filter (PlannedEdit.importsAccessorInto r u.path) = importEditsTaken r u cs := by
  rw [fileEdits_eq, List.filter_append]
  have hmembers : ((migratedAmong r u cs).flatMap (classEdits r)).filter
      (PlannedEdit.importsAccessorInto r u.path) = [] := by
    rw [List.filter_eq_nil_iff]
    intro e he
    obtain ⟨c, -, hc⟩ := List.mem_flatMap.mp he
    simp [PlannedEdit.importsAccessorInto, (mem_classEdits hc).2]
  have himport : (importEditsTaken r u cs).filter (PlannedEdit.importsAccessorInto r u.path) =
      importEditsTaken r u cs := by
    rw [List.filter_eq_self]
    intro e he
    obtain ⟨hfile, hpurpose, -⟩ := mem_importEdits (mem_importEditsTaken he)
    simp [PlannedEdit.importsAccessorInto, hfile, hpurpose]
  rw [hmembers, himport, List.append_nil]

/-- The edits of a file with another path do not add the accessor. -/
theorem filter_importsAccessor_other (h : v.path.same u.path = false) (cs : List ClassDecl) :
    (fileEdits r v cs).filter (PlannedEdit.importsAccessorInto r u.path) = [] := by
  have hadds := addsImport_fileEdits_other (r := r) h cs r.accessorModule r.accessorFunction
  rw [addsImport_eq] at hadds
  simpa using hadds

end

section
variable {r : Request} {p : Project}

/-! ## Whole projects -/

theorem select_eq [GlobReader] {s : Selector} (hs : Selector.ofRequest r = .ok s) (p : Project) :
    s.select p = selectedClasses r p.units := by
  simp only [Selector.select, Project.classes, selectedClasses, selectedIn, hs, List.filter_flatMap,
    List.filter_map]
  rfl

/-- A project can be planned exactly if the globs are valid, and the plan is that of the selected classes. -/
theorem planProject_eq_ok_iff [GlobReader] {plan : Plan} : (planProject r p).answer = .ok plan ↔
    (∃ s, Selector.ofRequest r = .ok s) ∧ plan = .ofClasses r (selectedClasses r p.units) := by
  unfold planProject
  cases hs : Selector.ofRequest r with
  | error failure => simp
  | ok s =>
    simp only [select_eq hs, Except.ok.injEq, exists_eq', true_and]
    exact eq_comm

/-- With valid globs there is a plan. -/
theorem exists_plan [GlobReader] (hglobs : (Selector.ofRequest r).isOk = true) (p : Project) :
    ∃ plan, (planProject r p).answer = .ok plan ∧ plan = .ofClasses r (selectedClasses r p.units) := by
  cases hs : Selector.ofRequest r with
  | error failure => simp [hs, Except.toBool] at hglobs
  | ok s => exact ⟨_, planProject_eq_ok_iff.mpr ⟨⟨s, hs⟩, rfl⟩, rfl⟩

/-- The plan of a project with distinct paths is the sum of what its files contribute. -/
theorem ofClasses_eq [GlobReader] (hdistinct : p.HasDistinctPaths) :
    Plan.ofClasses r (selectedClasses r p.units) =
      Plan.empty.grow (p.units.flatMap fun u => fileEdits r u (selectedIn r u))
        (p.units.map fun u => (migratedAmong r u (selectedIn r u)).length).sum
        (p.units.map fun u => (selectedIn r u).countP fun c => fateOf r u c = .skipped).sum
        (p.units.flatMap fun u => failuresAmong r u (selectedIn r u)) :=
  (foldl_add_files (selectedIn r) p.units .empty hdistinct fun _ _ => rfl).1

/-- The edits of a plan that add the accessor to a file are the import edit of the file, if one of its classes
is migrated. -/
theorem filter_importsAccessor_plan [GlobReader] (hdistinct : p.HasDistinctPaths) {u : SourceUnit} (hu : u ∈ p.units) :
    (Plan.ofClasses r (selectedClasses r p.units)).log.edits.filter
        (PlannedEdit.importsAccessorInto r u.path) =
      importEditsTaken r u (selectedIn r u) := by
  rw [ofClasses_eq hdistinct, Plan.log_grow]
  show (p.units.flatMap fun u => fileEdits r u (selectedIn r u)).filter _ = _
  rw [List.filter_flatMap, flatMap_eq_of_others_nil hdistinct hu, filter_importsAccessor_fileEdits]
  intro v _ hv
  exact filter_importsAccessor_other hv _

/-- Every selected class of a project with distinct paths has its own fate. -/
theorem fates_eq [GlobReader] (hdistinct : p.HasDistinctPaths) :
    fates r p = (selectedClasses r p.units).map fun x => (x, fateOf r x.1 x.2) := by
  have hfates := (foldl_add_files (r := r) (selectedIn r) p.units .empty hdistinct fun _ _ => rfl).2
  unfold fates
  rw [selectedClasses, hfates, List.map_flatMap]
  simp [Function.comp_def]

end

end FieldInjection
