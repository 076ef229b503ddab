import FieldInjection.Proofs.Planning.Promotion
import FieldInjection.Proofs.Planning.Transaction

/-!
# The import edits of a plan

A file gains the accessor once, if one of its classes is migrated and none of its imports binds the accessor
already, and never on behalf of classes that are skipped or refused. Whether the import surface of a file can
carry the accessor does not depend on the class, so either all classes of a file with parameters are refused for
it or none is (`import_account`).
-/

namespace FieldInjection

section
variable {r : Request} {p : Project} {u : SourceUnit} {c : ClassDecl}

/-! ## What refusals are about -/

/-- The members of a class are never refused for the imports of its file. -/
theorem memberEdits_error_kind {refusal : Refusal} (h : memberEdits r c = .error refusal) :
    refusal.kind ≠ .missingImportSurface := by
  unfold memberEdits FieldPromotion.promote at h
  -- only two things refuse the members: an obstacle of the constructor, and a field that cannot be planned
  cases hk : c.constructor? with
  | none => simp [hk, Except.map] at h
  | some k =>
    by_cases hp : k.parameters.isEmpty = true
    · simp [hk, hp, Except.map] at h
    cases ho : FieldPromotion.obstacle? k with
    | some obstacle =>
      simp only [hk, hp, ho, Except.map, Bool.false_eq_true, if_false, Except.error.injEq] at h
      subst h
      simp [Refusal.kind]
    | none =>
      cases hf : FieldPromotion.planFields r.accessorFunction c with
      | ok fields => simp [hk, hp, ho, hf, Except.map] at h
      | error refusal' =>
        simp only [hk, hp, ho, hf, Except.map, Bool.false_eq_true, if_false, Except.error.injEq] at h
        subst h
        -- a field can only be missing for a parameter that names nothing to look up
        obtain ⟨q, -, rfl⟩ := FieldPromotion.fieldsOf_error_iff.mp hf
        simp [Refusal.kind]

/-- Where the import surface can carry the accessor, no class is refused for it. -/
theorem fateOf_refusal_kind {es : List PlannedEdit} {refusal : Refusal} (hs : surfaceEdits r u = .ok es)
    (h : (fateOf r u c).refusal? = some refusal) : refusal.kind ≠ .missingImportSurface := by
  unfold fateOf at h
  split at h
  · cases h
  · rw [hs] at h
    cases hm : memberEdits r c with
    | ok es => simp [hm, Fate.refusal?] at h
    | error refusal' =>
      simp only [hm, Fate.refusal?, Option.some.injEq] at h
      subst h
      exact memberEdits_error_kind hm

/-- Where the import surface cannot carry the accessor, every class with parameters is refused for it. -/
theorem failuresAmong_of_surface_refused {refusal : Refusal} (hs : surfaceEdits r u = .error refusal)
    (cs : List ClassDecl) : failuresAmong r u cs =
      (cs.filter fun c => !c.parameters.isEmpty).map fun c => .ofRefusal c.file c.name refusal := by
  induction cs with
  | nil => rfl
  | cons c cs ih =>
    rw [failuresAmong_cons, ih, List.filter_cons, fateOf, hs]
    by_cases hp : c.parameters.isEmpty = true
    · simp [hp, Fate.refusal?]
    · simp [hp, Fate.refusal?]

theorem surfaceEdits_error_kind {refusal : Refusal} (hs : surfaceEdits r u = .error refusal) :
    refusal.kind = .missingImportSurface := by
  unfold surfaceEdits at hs
  split at hs
  · cases hs
  · split at hs
    · cases hs
      rfl
    · cases hs

/-! ## The failures of one file -/

theorem mem_failuresAmong {cs : List ClassDecl} {f : ClassFailure} (hf : f ∈ failuresAmong r u cs) :
    ∃ c ∈ cs, ∃ refusal, (fateOf r u c).refusal? = some refusal ∧
      f = .ofRefusal c.file c.name refusal := by
  obtain ⟨c, hc, hmap⟩ := List.mem_filterMap.mp hf
  obtain ⟨refusal, hrefusal, rfl⟩ := Option.map_eq_some_iff.mp hmap
  exact ⟨c, hc, refusal, hrefusal, rfl⟩

/-- The failures of a plan that are reported for a file are those of its own classes. -/
theorem filter_failures_plan [GlobReader] (hdistinct : p.HasDistinctPaths) (howns : ∀ v ∈ p.units, v.OwnsClasses)
    (hu : u ∈ p.units) :
    (Plan.ofClasses r (selectedClasses r p.units)).failures.filter (fun f => f.file.same u.path) =
      failuresAmong r u (selectedIn r u) := by
  have hfile : ∀ v ∈ p.units, ∀ f ∈ failuresAmong r v (selectedIn r v), f.file.same v.path = true := by
    intro v hv f hf
    obtain ⟨c, hc, refusal, -, rfl⟩ := mem_failuresAmong hf
    exact howns v hv c (mem_of_mem_selectedIn hc)
  rw [ofClasses_eq hdistinct]
  show (p.units.flatMap fun u => failuresAmong r u (selectedIn r u)).filter _ = _
  rw [List.filter_flatMap, flatMap_eq_of_others_nil hdistinct hu, List.filter_eq_self]
  · exact hfile u hu
  · -- the failures of a file with another path carry that path
    intro v hv hvu
    rw [List.filter_eq_nil_iff]
    intro f hf
    rw [Path.same_congr (hfile v hv f hf), hvu]
    simp

/-! ## The account -/

theorem mem_migratedClasses [GlobReader] (hdistinct : p.HasDistinctPaths) : (u, c) ∈ migratedClasses r p ↔
    u ∈ p.units ∧ c ∈ migratedAmong r u (selectedIn r u) := by
  rw [migratedClasses_eq hdistinct]
  simp only [List.mem_flatMap, List.mem_map, Prod.mk.injEq]
  constructor
  · rintro ⟨u', hu, c', hc, rfl, rfl⟩
    exact ⟨hu, hc⟩
  · rintro ⟨hu, hc⟩
    exact ⟨u, hu, c, hc, rfl, rfl⟩

/-- How many import edits the migrated classes of a file cause. -/
theorem length_importEditsTaken (cs : List ClassDecl) : (importEditsTaken r u cs).length =
    if migratedAmong r u cs ≠ [] ∧ bindsAccessor r u = false then 1 else 0 := by
  unfold importEditsTaken
  cases hm : migratedAmong r u cs with
  | nil => rfl
  | cons c cs' =>
    -- a migrated class shows that the import surface can carry the accessor
    have hc : c ∈ migratedAmong r u cs := by simp [hm]
    have hmigrated : fateOf r u c = .migrated := by simpa using (List.mem_filter.mp hc).2
    obtain ⟨-, ⟨es, hes⟩, -⟩ := fateOf_migrated_iff.mp hmigrated
    have hbinds := importEdits_eq_nil_iff hes
    have hle := length_importEdits_le (r := r) (u := u)
    cases hb : bindsAccessor r u with
    | true => simp [hbinds.mpr hb]
    | false =>
      have hne : importEdits r u ≠ [] := fun hnil => by simp [hbinds.mp hnil] at hb
      have := List.length_pos_iff.mpr hne
      simp
      omega

/--
**The import account of a file**: a plan holds one edit that adds the accessor to the file if one of its
classes is migrated and none of its imports from the module binds the accessor as a value, and no such edit
otherwise. Its selected classes with parameters are all refused for the import surface, for one reason, or none
of them is.
-/
theorem import_account [GlobReader] {plan : Plan} (hplan : (planProject r p).answer = .ok plan)
    (hdistinct : p.HasDistinctPaths) (howns : ∀ v ∈ p.units, v.OwnsClasses) (hu : u ∈ p.units) :
    (plan.log.edits.filter fun e => e.file.same u.path &&
        e.purpose == .addNamedImport r.accessorModule r.accessorFunction).length =
      (if (∃ x ∈ migratedClasses r p, x.1 = u) ∧
          ¬ ∃ i ∈ u.imports, i.moduleName = r.accessorModule ∧ i.binds r.accessorFunction = true
        then 1 else 0) ∧
    ((∃ reason, plan.failures.filter (fun f => f.file.same u.path) =
        ((selectedIn r u).filter fun c => !c.parameters.isEmpty).map fun c =>
          ⟨c.file, c.name, .missingImportSurface, reason⟩) ∨
      ∀ f ∈ plan.failures, f.file.same u.path = true → f.kind ≠ .missingImportSurface) := by
  obtain ⟨-, rfl⟩ := planProject_eq_ok_iff.mp hplan
  constructor
  · -- the number of import edits
    have hmigrated : (∃ x ∈ migratedClasses r p, x.1 = u) ↔ migratedAmong r u (selectedIn r u) ≠ [] := by
      constructor
      · rintro ⟨⟨u', c⟩, hx, rfl⟩
        exact List.ne_nil_of_mem ((mem_migratedClasses hdistinct).mp hx).2
      · intro hne
        obtain ⟨c, hc⟩ := List.exists_mem_of_ne_nil _ hne
        exact ⟨(u, c), (mem_migratedClasses hdistinct).mpr ⟨hu, hc⟩, rfl⟩
    have hbinds : (¬ ∃ i ∈ u.imports, i.moduleName = r.accessorModule ∧
        i.binds r.accessorFunction = true) ↔ bindsAccessor r u = false := by
      rw [← Bool.not_eq_true]
      simp [bindsAccessor, SourceUnit.importsFrom]
    have hcount := congrArg List.length (filter_importsAccessor_plan (r := r) hdistinct hu)
    rw [length_importEditsTaken] at hcount
    simp only [hmigrated, hbinds]
    exact hcount
  · -- whether the import surface is refused does not depend on the class
    have hfailures := filter_failures_plan (r := r) hdistinct howns hu
    cases hs : surfaceEdits r u with
    | error refusal =>
      left
      refine ⟨refusal.message, ?_⟩
      rw [hfailures, failuresAmong_of_surface_refused hs]
      simp [ClassFailure.ofRefusal, surfaceEdits_error_kind hs]
    | ok es =>
      right
      intro f hf hfile
      have hmem : f ∈ failuresAmong r u (selectedIn r u) := by
        rw [← hfailures]
        exact List.mem_filter.mpr ⟨hf, hfile⟩
      obtain ⟨c, -, refusal, hrefusal, rfl⟩ := mem_failuresAmong hmem
      exact fateOf_refusal_kind hs hrefusal

/-- One import edit in a file of which one class is refused and one is migrated. -/
theorem import_account_rest : ∃ plan, (planProject (.forRoot ⟨"/p"⟩) restAndPlainProject).answer = .ok plan ∧
    restAndPlainProject.HasDistinctPaths ∧ (∀ v ∈ restAndPlainProject.units, v.OwnsClasses) ∧
    restAndPlain ∈ restAndPlainProject.units ∧
    (plan.log.edits.filter fun e => e.file.same restAndPlain.path &&
      e.purpose == .addNamedImport "@angular/core" "inject").length = 1 := by
  obtain ⟨plan, hplan, -⟩ := exists_plan (r := .forRoot ⟨"/p"⟩) (by decide +kernel) restAndPlainProject
  have hdistinct : restAndPlainProject.HasDistinctPaths := List.pairwise_singleton _ _
  have howns : ∀ v ∈ restAndPlainProject.units, v.OwnsClasses := by
    unfold SourceUnit.OwnsClasses
    decide +kernel
  have hu : restAndPlain ∈ restAndPlainProject.units := List.mem_singleton_self _
  refine ⟨plan, hplan, hdistinct, howns, hu, ?_⟩
  exact (import_account hplan hdistinct howns hu).1.trans (if_pos (by decide +kernel))

end

end FieldInjection
