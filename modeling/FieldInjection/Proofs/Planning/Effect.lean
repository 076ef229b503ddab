import FieldInjection.Proofs.Planning.ClassEdits
import FieldInjection.Proofs.Planning.Transaction

/-!
# What a plan does to a file

The edits that a plan has for a file are its import edit and those of its migrated classes (`forFile_plan`).
Where the classes do not stand in each other's parameter lists, and the import edit not in those either, all of
them are apart from one another. So they can be applied, and the text changes in these places only
(`apply_plan_eq_migratedText`).
-/

namespace FieldInjection

/-- The classes of a unit that are migrated when its project is planned. -/
def modifiedClasses [GlobReader] (r : Request) (p : Project) (u : SourceUnit) : List ClassDecl :=
  ((migratedClasses r p).filter fun x => x.1 = u).map Prod.snd

/-- The edits of a plan that add the accessor to a file. -/
def Plan.importEdits (r : Request) (plan : Plan) (u : SourceUnit) : List TextEdit :=
  (plan.log.edits.filter (PlannedEdit.importsAccessorInto r u.path)).map PlannedEdit.edit

/-! ## The parts of a batch -/

theorem insertedBy_append (es fs : List TextEdit) (offset : Nat) :
    insertedBy (es ++ fs) offset = insertedBy es offset ++ insertedBy fs offset := by
  simp [insertedBy]

theorem removedBy_append (es fs : List TextEdit) (offset : Nat) :
    removedBy (es ++ fs) offset = (removedBy es offset || removedBy fs offset) := by
  simp [removedBy]

section
variable {r : Request} {p : Project} {u v : SourceUnit} {c : ClassDecl} {text : List Char}

/-- The edits for the members of some classes. -/
def memberEditsOf (r : Request) (cs : List ClassDecl) : List TextEdit :=
  cs.flatMap fun c => (classEdits r c).map PlannedEdit.edit

/-- Classes insert where their bodies begin. -/
theorem insertedBy_memberEditsOf {cs : List ClassDecl} (h : ∀ c ∈ cs, fateOf r u c = .migrated)
    (offset : Nat) : insertedBy (memberEditsOf r cs) offset =
      (cs.filter fun c => c.bodyStart = offset).flatMap fun c => (promotedBlock r c).toList := by
  induction cs with
  | nil => rfl
  | cons c cs ih =>
    have hrest := ih fun d hd => h d (List.mem_cons_of_mem c hd)
    rw [memberEditsOf] at hrest
    rw [memberEditsOf, List.flatMap_cons, insertedBy_append,
      insertedBy_classEdits (h c List.mem_cons_self), hrest]
    by_cases hc : c.bodyStart = offset <;> simp [hc]

/-- Classes remove their parameter lists. -/
theorem removedBy_memberEditsOf {cs : List ClassDecl} (h : ∀ c ∈ cs, fateOf r u c = .migrated)
    (hlaid : ∀ c ∈ cs, c.IsLaidOut text) (offset : Nat) : removedBy (memberEditsOf r cs) offset =
      cs.any fun c => c.parameterList.start ≤ offset && offset < c.parameterList.stop := by
  induction cs with
  | nil => rfl
  | cons c cs ih =>
    have hrest := ih (fun d hd => h d (List.mem_cons_of_mem c hd))
      fun d hd => hlaid d (List.mem_cons_of_mem c hd)
    rw [memberEditsOf] at hrest
    rw [memberEditsOf, List.flatMap_cons, removedBy_append,
      removedBy_classEdits (h c List.mem_cons_self) (hlaid c List.mem_cons_self), hrest, List.any_cons]

/-- An edit of one class is apart from those of a class that is apart from it. -/
theorem isApartFrom_of_areApart {d : ClassDecl} (hc : fateOf r u c = .migrated)
    (hd : fateOf r u d = .migrated) (hlaidC : c.IsLaidOut text) (hlaidD : d.IsLaidOut text)
    (hapart : c.AreApart d) {e f : TextEdit} (he : e ∈ (classEdits r c).map PlannedEdit.edit)
    (hf : f ∈ (classEdits r d).map PlannedEdit.edit) : e.range.IsApartFrom f.range := by
  -- first `e` is apart from the two places of `d`, and so each edit of `d` is apart from `e`
  have hlist : e.range.IsApartFrom d.parameterList :=
    isApartFrom_of_mem_classEdits hc hlaidC hapart.left he
  have hbody : e.range.IsApartFrom (.empty d.bodyStart) := by
    refine isApartFrom_of_mem_classEdits hc hlaidC ⟨?_, hapart.right.symm⟩ he
    exact isApartFrom_empty _ _
  exact (isApartFrom_of_mem_classEdits hd hlaidD ⟨hbody.symm, hlist.symm⟩ hf).symm

/-- The edits of classes that are apart from one another are so too. -/
theorem pairwise_memberEditsOf {cs : List ClassDecl} (h : ∀ c ∈ cs, fateOf r u c = .migrated)
    (hlaid : ∀ c ∈ cs, c.IsLaidOut text) (hapart : cs.Pairwise ClassDecl.AreApart) :
    (memberEditsOf r cs).Pairwise fun a b => a.range.IsApartFrom b.range := by
  induction cs with
  | nil => exact List.Pairwise.nil
  | cons c cs ih =>
    obtain ⟨hfirst, hothers⟩ := List.pairwise_cons.mp hapart
    have hc := h c List.mem_cons_self
    have hlaidC := hlaid c List.mem_cons_self
    have hrest := ih (fun d hd => h d (List.mem_cons_of_mem c hd))
      (fun d hd => hlaid d (List.mem_cons_of_mem c hd)) hothers
    rw [memberEditsOf, List.flatMap_cons, List.pairwise_append]
    refine ⟨pairwise_classEdits hc hlaidC, hrest, ?_⟩
    intro e he f hf
    obtain ⟨d, hd, hf⟩ := List.mem_flatMap.mp hf
    have hmem := List.mem_cons_of_mem c hd
    exact isApartFrom_of_areApart hc (h d hmem) hlaidC (hlaid d hmem) (hfirst d hd) he hf

/-! ## The import edit -/

theorem isPlain_insertion {name : String} {place : Insertion} {e : TextEdit}
    (h : ImportSurface.insertion name place = .ok e) : e.IsPlain := by
  cases place with
  | afterLastSpecifier offset =>
    cases h
    exact Or.inl rfl
  | emptyNamedList offset =>
    cases h
    exact Or.inl rfl
  | afterDefaultBinding offset =>
    cases h
    exact Or.inl rfl
  | unsupported reason => cases h

theorem ImportSurface.IsAmendment.isPlain {name : String} {i : ImportDecl} {e : TextEdit}
    (h : ImportSurface.IsAmendment name i e) : e.IsPlain := by
  rcases h with ⟨s, -, -, rfl⟩ | hinsertion
  · exact Or.inr rfl
  · exact isPlain_insertion hinsertion

/-- The change of an import surface inserts or deletes. -/
theorem isPlain_amend {name : String} {is : List ImportDecl} {e : TextEdit}
    (h : ImportSurface.amend name is = .ok e) : e.IsPlain := by
  obtain ⟨i, -, -, hcase⟩ := ImportSurface.amend_eq_ok h
  have hamends : ImportSurface.IsAmendment name i e := hcase.imp id And.left
  exact hamends.isPlain

theorem isPlain_of_mem_importEdits {e : PlannedEdit} (he : e ∈ importEdits r u) : e.edit.IsPlain :=
  isPlain_amend (mem_importEdits he).2.2

theorem pairwise_importEditsTaken (R : PlannedEdit → PlannedEdit → Prop) (cs : List ClassDecl) :
    (importEditsTaken r u cs).Pairwise R := by
  rcases importEditsTaken_cases (r := r) (u := u) cs with htaken | ⟨e, -, htaken⟩
  · rw [htaken]
    exact List.Pairwise.nil
  · rw [htaken]
    exact List.pairwise_singleton R e

theorem importEdits_plan [GlobReader] (hdistinct : p.HasDistinctPaths) (hu : u ∈ p.units) :
    (Plan.ofClasses r (selectedClasses r p.units)).importEdits r u =
      (importEditsTaken r u (selectedIn r u)).map PlannedEdit.edit := by
  rw [Plan.importEdits, filter_importsAccessor_plan hdistinct hu]

/-! ## The edits of one file -/

/-- What a file contributes to a plan belongs to the file. -/
theorem same_of_mem_fileEdits [GlobReader] (howns : u.OwnsClasses) {e : PlannedEdit}
    (he : e ∈ fileEdits r u (selectedIn r u)) : e.file.same u.path = true := by
  rw [fileEdits_eq, List.mem_append] at he
  rcases he with he | he
  · rw [(mem_importEdits (mem_importEditsTaken he)).1]
    exact Path.same_self _
  · obtain ⟨c, hc, he⟩ := List.mem_flatMap.mp he
    rw [(mem_classEdits he).1]
    exact howns c (mem_of_mem_selectedIn (List.mem_filter.mp hc).1)

/-- The edits that a plan has for a file are those that the file contributes. -/
theorem forFile_plan [GlobReader] (hdistinct : p.HasDistinctPaths) (howns : ∀ v ∈ p.units, v.OwnsClasses)
    (hu : u ∈ p.units) :
    (Plan.ofClasses r (selectedClasses r p.units)).log.forFile u.path =
      fileEdits r u (selectedIn r u) := by
  rw [ofClasses_eq hdistinct, Plan.log_grow]
  show (p.units.flatMap fun v => fileEdits r v (selectedIn r v)).filter (fun e => e.file.same u.path) = _
  rw [List.filter_flatMap, flatMap_eq_of_others_nil hdistinct hu]
  · rw [List.filter_eq_self]
    intro e he
    exact same_of_mem_fileEdits (howns u hu) he
  · -- what another file contributes belongs to that file
    intro v hv hother
    rw [List.filter_eq_nil_iff]
    intro e he
    rw [Path.same_congr (same_of_mem_fileEdits (howns v hv) he), hother]
    simp

/-- The classes of a unit that are migrated in a project are those that its own fate migrates. -/
theorem modifiedClasses_eq [GlobReader] (hdistinct : p.HasDistinctPaths) (hu : u ∈ p.units) :
    modifiedClasses r p u = migratedAmong r u (selectedIn r u) := by
  rw [modifiedClasses, migratedClasses_eq hdistinct, List.filter_flatMap,
    flatMap_eq_of_others_nil hdistinct hu]
  · simp [List.filter_map, Function.comp_def]
  · -- a unit of another path is another unit
    intro v _ hother
    have hne : v ≠ u := by
      rintro rfl
      simp at hother
    simp [List.filter_map, Function.comp_def, hne]

theorem fileEdits_map_edit [GlobReader] (hdistinct : p.HasDistinctPaths) (hu : u ∈ p.units) :
    (fileEdits r u (selectedIn r u)).map PlannedEdit.edit =
      (Plan.ofClasses r (selectedClasses r p.units)).importEdits r u ++
        memberEditsOf r (modifiedClasses r p u) := by
  rw [fileEdits_eq, List.map_append, importEdits_plan hdistinct hu, modifiedClasses_eq hdistinct hu,
    memberEditsOf, List.map_flatMap]

theorem fateOf_of_mem_modifiedClasses [GlobReader] (hdistinct : p.HasDistinctPaths) (hu : u ∈ p.units)
    (hc : c ∈ modifiedClasses r p u) : fateOf r u c = .migrated := by
  rw [modifiedClasses_eq hdistinct hu] at hc
  simpa using (List.mem_filter.mp hc).2

/-- What stands in a text once a plan has been applied to it, in terms of the classes that are migrated: in front
of the character at an offset what the import edit inserts there and the fields of the classes whose bodies begin
there, and the character itself unless the import edit removes it or it belongs to a parameter list. -/
def migratedText (r : Request) (imports : List TextEdit) (cs : List ClassDecl) (text : String) : String :=
  String.ofList (weave
    (fun offset => insertedBy imports offset ++
      (cs.filter fun c => c.bodyStart = offset).flatMap fun c => (promotedBlock r c).toList)
    (fun offset => removedBy imports offset ||
      cs.any fun c => c.parameterList.start ≤ offset && offset < c.parameterList.stop)
    0 text.toList)

/-- Edits of imports and those of migrated classes do to a text what they ask for, where they are apart. -/
theorem applyEdits_eq_migratedText {imports : List TextEdit} {cs : List ClassDecl} {text : String}
    (hmigrated : ∀ c ∈ cs, fateOf r u c = .migrated) (hlaid : ∀ c ∈ cs, c.IsLaidOut text.toList)
    (hapart : cs.Pairwise ClassDecl.AreApart) (hplain : ∀ e ∈ imports, e.IsPlain)
    (hpairwise : imports.Pairwise fun e f => e.range.IsApartFrom f.range)
    (himport : ∀ e ∈ imports, e.range.isValidFor text.toList = true ∧ ∀ c ∈ cs, c.IsApartFrom e.range) :
    applyEdits text (imports ++ memberEditsOf r cs) = .ok (migratedText r imports cs text) := by
  rw [applyEdits_eq_weave, migratedText]
  · -- what they insert and remove
    congr 3
    · funext offset
      rw [insertedBy_append, insertedBy_memberEditsOf hmigrated]
    · funext offset
      rw [removedBy_append, removedBy_memberEditsOf hmigrated hlaid]
  · -- all edits are valid
    intro e he
    rcases List.mem_append.mp he with he | he
    · exact (himport e he).1
    · obtain ⟨c, hc, he⟩ := List.mem_flatMap.mp he
      exact (isPlain_of_mem_classEdits (hmigrated c hc) (hlaid c hc) he).2
  · -- all edits are apart from one another
    refine List.pairwise_append.mpr ⟨hpairwise, pairwise_memberEditsOf hmigrated hlaid hapart, ?_⟩
    intro e he f hf
    obtain ⟨c, hc, hf⟩ := List.mem_flatMap.mp hf
    exact (isApartFrom_of_mem_classEdits (hmigrated c hc) (hlaid c hc) ((himport e he).2 c hc) hf).symm
  · -- all edits insert or delete
    intro e he
    rcases List.mem_append.mp he with he | he
    · exact hplain e he
    · obtain ⟨c, hc, he⟩ := List.mem_flatMap.mp he
      exact (isPlain_of_mem_classEdits (hmigrated c hc) (hlaid c hc) he).1

/-- At most one edit changes the imports of a file, and it inserts or deletes. -/
theorem importEdits_spec [GlobReader] (hdistinct : p.HasDistinctPaths) (hu : u ∈ p.units) :
    (∀ e ∈ (Plan.ofClasses r (selectedClasses r p.units)).importEdits r u, e.IsPlain) ∧
      ((Plan.ofClasses r (selectedClasses r p.units)).importEdits r u).Pairwise fun e f =>
        e.range.IsApartFrom f.range := by
  rw [importEdits_plan hdistinct hu]
  constructor
  · intro e he
    obtain ⟨e', he', rfl⟩ := List.mem_map.mp he
    exact isPlain_of_mem_importEdits (mem_importEditsTaken he')
  · rw [List.pairwise_map]
    exact pairwise_importEditsTaken _ _

/--
**A plan does to a file what its migrated classes ask for**: where these do not stand in each other's parameter
lists and the import edit not in them either, the edits for the file can be applied. Each class gains its fields
behind the opening brace of its body and loses what stands between the parentheses of its constructor, and all
else but the import edit stays.
-/
theorem apply_plan_eq_migratedText [GlobReader] {plan : Plan} (hplan : (planProject r p).answer = .ok plan)
    (hdistinct : p.HasDistinctPaths) (howns : ∀ v ∈ p.units, v.OwnsClasses) (hu : u ∈ p.units)
    (hlaid : ∀ c ∈ modifiedClasses r p u, c.IsLaidOut u.text.toList)
    (hapart : (modifiedClasses r p u).Pairwise ClassDecl.AreApart)
    (himport : ∀ e ∈ plan.importEdits r u, e.range.isValidFor u.text.toList = true ∧
      ∀ c ∈ modifiedClasses r p u, c.IsApartFrom e.range) :
    plan.log.apply u.path u.text =
      .ok (migratedText r (plan.importEdits r u) (modifiedClasses r p u) u.text) := by
  obtain ⟨-, rfl⟩ := planProject_eq_ok_iff.mp hplan
  obtain ⟨hplain, hpairwise⟩ := importEdits_spec (r := r) hdistinct hu
  rw [EditLog.apply, forFile_plan hdistinct howns hu, fileEdits_map_edit hdistinct hu]
  exact applyEdits_eq_migratedText (fun c hc => fateOf_of_mem_modifiedClasses hdistinct hu hc) hlaid hapart hplain
    hpairwise himport

/-- A file with a class in the constructor of another one, a comment and a decorator among the parameters, and
lines that end with carriage returns. -/
def nestedClasses : SourceUnit where
  path := ⟨"/p/a.ts"⟩
  relativePath := ⟨"a.ts"⟩
  text := "import \x7b Component \x7d from '@angular/core';\r\n" ++
    "class OuterComponent \x7b\r\n  constructor(/* é */ private a: A,\r\n    @Inject(T) b: B,) \x7b\r\n" ++
    "    class InnerComponent \x7b constructor(c: C) \x7b\x7d \x7d\r\n  \x7d\r\n\x7d\r\n"
  classes := [
    ⟨"OuterComponent", ⟨"/p/a.ts"⟩, ⟨44, 188⟩, 66, "  ", true, .crlf,
      some ⟨[⟨"a", .identifier, some "A", false, false, some .priv, [], ⟨91, 103⟩⟩,
        ⟨"b", .identifier, some "B", false, false, none, [⟨"@Inject(T)", .token "T"⟩], ⟨110, 125⟩⟩],
        ⟨82, 126⟩, 0⟩⟩,
    ⟨"InnerComponent", ⟨"/p/a.ts"⟩, ⟨135, 180⟩, 157, "        ", true, .crlf,
      some ⟨[⟨"c", .identifier, some "C", false, false, none, [], ⟨170, 174⟩⟩], ⟨170, 174⟩, 0⟩⟩]
  imports := [⟨"@angular/core", ["Component"], [], false, ⟨0, 42⟩, .afterLastSpecifier 18⟩]
  hasSyntaxErrors := false

/-- The project of that file. -/
def nestedClassesProject : Project := ⟨⟨"/p"⟩, [nestedClasses]⟩

set_option maxRecDepth 2048 in
theorem nestedClasses_isLaidOut :
    let r := Request.forRoot ⟨"/p"⟩
    let cs := modifiedClasses r nestedClassesProject nestedClasses
    let plan := Plan.ofClasses r (selectedClasses r nestedClassesProject.units)
    (∀ c ∈ cs, c.IsLaidOut nestedClasses.text.toList) ∧ cs.Pairwise ClassDecl.AreApart ∧
      ∀ e ∈ plan.importEdits r nestedClasses, e.range.isValidFor nestedClasses.text.toList = true ∧
        ∀ c ∈ cs, c.IsApartFrom e.range := by
  intro r cs plan
  rw [show nestedClasses.text.toList = _ from toList_append_ofList (toList_append_ofList String.toList_ofList)]
  decide +kernel

set_option maxRecDepth 1024 in
theorem migratedText_nestedClasses :
    let r := Request.forRoot ⟨"/p"⟩
    let cs := modifiedClasses r nestedClassesProject nestedClasses
    let plan := Plan.ofClasses r (selectedClasses r nestedClassesProject.units)
    migratedText r (plan.importEdits r nestedClasses) cs nestedClasses.text =
      "import \x7b Component, inject \x7d from '@angular/core';\r\n" ++
        "class OuterComponent \x7b\r\n  private a: A = inject(A);\r\n  b: B = inject(T);\r\n\r\n" ++
        "  constructor() \x7b\r\n" ++
        "    class InnerComponent \x7b\r\n        c: C = inject(C);\r\n constructor() \x7b\x7d \x7d\r\n" ++
        "  \x7d\r\n\x7d\r\n" := by
  intro r cs plan
  rw [← String.toList_inj, migratedText, String.toList_ofList,
    show nestedClasses.text.toList = _ from toList_append_ofList (toList_append_ofList String.toList_ofList)]
  simp only [String.toList_append]
  decide +kernel

/-- Both classes of the file gain their fields and lose their parameters. -/
theorem apply_plan_nestedClasses :
    let r := Request.forRoot ⟨"/p"⟩
    ∃ plan, (planProject r nestedClassesProject).answer = .ok plan ∧
      nestedClassesProject.HasDistinctPaths ∧ (∀ v ∈ nestedClassesProject.units, v.OwnsClasses) ∧
      nestedClasses ∈ nestedClassesProject.units ∧
      modifiedClasses r nestedClassesProject nestedClasses = nestedClasses.classes ∧
      plan.log.apply nestedClasses.path nestedClasses.text =
        .ok ("import \x7b Component, inject \x7d from '@angular/core';\r\n" ++
          "class OuterComponent \x7b\r\n  private a: A = inject(A);\r\n  b: B = inject(T);\r\n\r\n" ++
          "  constructor() \x7b\r\n" ++
          "    class InnerComponent \x7b\r\n        c: C = inject(C);\r\n constructor() \x7b\x7d \x7d\r\n" ++
          "  \x7d\r\n\x7d\r\n") := by
  intro r
  have hglobs : (Selector.ofRequest r).isOk = true := by decide +kernel
  have hdistinct : nestedClassesProject.HasDistinctPaths := List.pairwise_singleton _ _
  have howns : ∀ v ∈ nestedClassesProject.units, v.OwnsClasses := by
    intro v hv
    obtain rfl := List.mem_singleton.mp hv
    exact (by decide +kernel : ∀ c ∈ nestedClasses.classes, c.file.same nestedClasses.path = true)
  have hu : nestedClasses ∈ nestedClassesProject.units := List.mem_singleton.mpr rfl
  have hmodified : modifiedClasses r nestedClassesProject nestedClasses = nestedClasses.classes := by
    decide +kernel
  obtain ⟨hlaid, hapart, himport⟩ := nestedClasses_isLaidOut
  obtain ⟨plan, hplan, rfl⟩ := exists_plan hglobs nestedClassesProject
  refine ⟨_, hplan, hdistinct, howns, hu, hmodified, ?_⟩
  rw [apply_plan_eq_migratedText hplan hdistinct howns hu hlaid hapart himport]
  exact congrArg Except.ok migratedText_nestedClasses

end

end FieldInjection
