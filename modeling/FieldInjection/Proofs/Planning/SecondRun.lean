import Mathlib.Data.List.Forall2
import FieldInjection.Proofs.Planning.Conflict
import FieldInjection.Proofs.Planning.ImportAccount

/-!
# A second run

Once a project is planned and its edits are applied, reading the files again gives a project whose migrated classes
have no constructor parameters left and whose amended files bind the accessor (`Project.IsReadAfter`). Planning that
project plans nothing: a class that was migrated is skipped, and a class that was refused is refused again, for the
same reason (`fateOf_readAfter`).

The refusals are the reason why a second run has to be looked at. A class that is refused next to a migrated one
meets another import surface in the second run, but it was refused for its members, which are as they were; and a
file whose import surface was refused has no migrated class, so its imports are as they were.

Main result: `second_plan_changes_nothing`.
-/

namespace FieldInjection

/-- A parameter wherever it stands. -/
def Parameter.placeless (q : Parameter) : Parameter := { q with range := .empty 0 }

/-- A constructor wherever it stands. -/
def Constructor.placeless (k : Constructor) : Constructor :=
  { k with parameters := k.parameters.map Parameter.placeless, parameterList := .empty 0 }

/-- A class of a file as it is read when the edits of the plan of a project have been applied. The edits in front of
a constructor that stays move it, and change nothing else about it. -/
structure ClassDecl.IsReadAfter [GlobReader] (r : Request) (p : Project) (u : SourceUnit) (c c' : ClassDecl) : Prop where
  name_eq : c'.name = c.name
  migrated : (u, c) ∈ migratedClasses r p → c'.parameters = []
  other : (u, c) ∉ migratedClasses r p →
    c'.constructor?.map Constructor.placeless = c.constructor?.map Constructor.placeless

/-- A file as it is read when the edits of the plan of a project have been applied. -/
structure SourceUnit.IsReadAfter [GlobReader] (r : Request) (p : Project) (u u' : SourceUnit) : Prop where
  path_eq : u'.path = u.path
  relativePath_eq : u'.relativePath = u.relativePath
  classes : List.Forall₂ (ClassDecl.IsReadAfter r p u) u.classes u'.classes
  imports_migrated : (∃ c, (u, c) ∈ migratedClasses r p) →
    ∃ i ∈ u'.imports, i.moduleName = r.accessorModule ∧ i.binds r.accessorFunction = true
  imports_other : (¬ ∃ c, (u, c) ∈ migratedClasses r p) → u'.imports = u.imports

/-- A project as it is read when the edits of its plan have been applied. -/
def Project.IsReadAfter [GlobReader] (r : Request) (p p' : Project) : Prop :=
  List.Forall₂ (SourceUnit.IsReadAfter r p) p.units p'.units

/-- Two reports of one failure: of classes of one name in one file, for the same reason. -/
structure ClassFailure.IsSame (f g : ClassFailure) : Prop where
  file : f.file.same g.file = true
  className : f.className = g.className
  kind : f.kind = g.kind
  reason : f.reason = g.reason

/-- The fate of a class in the second run, by its fate in the first one: nothing is left to do for a migrated class. -/
def Fate.again : Fate → Fate
  | .skipped => .skipped
  | .migrated => .skipped
  | .refused refusal => .refused refusal

@[simp] theorem Fate.again_ne_migrated (f : Fate) : f.again ≠ .migrated := by
  rcases f with _ | _ | _ <;> simp [Fate.again]

@[simp] theorem Fate.refusal?_again (f : Fate) : f.again.refusal? = f.refusal? := by
  rcases f with _ | _ | _ <;> rfl

section
variable {r : Request} {p p' : Project} {u u' : SourceUnit} {c c' : ClassDecl}

/-! ## One class -/

theorem fieldsOf_placeless (function className : String) (qs : List Parameter) :
    FieldPromotion.fieldsOf function className (qs.map Parameter.placeless) =
      FieldPromotion.fieldsOf function className qs := by
  induction qs with
  | nil => rfl
  | cons q qs ih =>
    rw [List.map_cons, FieldPromotion.fieldsOf, FieldPromotion.fieldsOf, ih]
    rfl

theorem obstacle?_placeless (k : Constructor) : FieldPromotion.obstacle? k.placeless = FieldPromotion.obstacle? k := by
  have hparameters : (k.parameters.map Parameter.placeless).findSome? FieldPromotion.parameterObstacle? =
      k.parameters.findSome? FieldPromotion.parameterObstacle? := by
    rw [List.findSome?_map]
    rfl
  unfold FieldPromotion.obstacle?
  rw [← hparameters]
  rfl

theorem isEmpty_placeless (k : Constructor) : k.placeless.parameters.isEmpty = k.parameters.isEmpty := by
  simp [Constructor.placeless]

/-- What keeps the members of a class from being migrated: the constructor has no field form, or some parameter has
no initializer. -/
def memberRefusal? (r : Request) (className : String) (k : Constructor) : Option Refusal :=
  if k.parameters.isEmpty then none
  else
    match FieldPromotion.obstacle? k with
    | some obstacle => some (.unsupportedConstructor className obstacle.message)
    | none =>
      match FieldPromotion.fieldsOf r.accessorFunction className k.parameters with
      | .error refusal => some refusal
      | .ok _ => none

theorem memberRefusal?_placeless (className : String) (k : Constructor) :
    memberRefusal? r className k.placeless = memberRefusal? r className k := by
  unfold memberRefusal?
  rw [isEmpty_placeless, obstacle?_placeless]
  show (if _ then _ else match FieldPromotion.obstacle? k with
    | some obstacle => _
    | none => match FieldPromotion.fieldsOf _ _ (k.parameters.map Parameter.placeless) with
      | .error refusal => _
      | .ok _ => _) = _
  rw [fieldsOf_placeless]

theorem memberEdits_error_iff {refusal : Refusal} : memberEdits r c = .error refusal ↔
    c.constructor?.bind (memberRefusal? r c.name) = some refusal := by
  unfold memberEdits FieldPromotion.promote FieldPromotion.planFields ClassDecl.parameters
  rcases c.constructor? with _ | k
  · simp [Except.map]
  · by_cases hempty : k.parameters.isEmpty = true
    · simp [memberRefusal?, hempty, Except.map]
    · rcases hobstacle : FieldPromotion.obstacle? k with _ | obstacle
      · rcases hfields : FieldPromotion.fieldsOf r.accessorFunction c.name k.parameters with refusal' | fields <;>
          simp [memberRefusal?, hempty, hobstacle, hfields, Except.map]
      · simp [memberRefusal?, hempty, hobstacle, Except.map]

/-- Whether and why the members of a class are refused depends on its name and its constructor alone, not on where
they stand. -/
theorem memberEdits_error_of_eq (hname : c'.name = c.name)
    (hconstructor : c'.constructor?.map Constructor.placeless = c.constructor?.map Constructor.placeless)
    {refusal : Refusal} (h : memberEdits r c = .error refusal) : memberEdits r c' = .error refusal := by
  have hplaceless : ∀ k? : Option Constructor, (k?.map Constructor.placeless).bind (memberRefusal? r c.name) =
      k?.bind (memberRefusal? r c.name) := by
    intro k?
    rcases k? with _ | k
    · rfl
    · exact memberRefusal?_placeless c.name k
  rw [memberEdits_error_iff] at h ⊢
  rw [hname, ← hplaceless, hconstructor, hplaceless, h]

theorem isEmpty_parameters_of_eq
    (hconstructor : c'.constructor?.map Constructor.placeless = c.constructor?.map Constructor.placeless) :
    c'.parameters.isEmpty = c.parameters.isEmpty := by
  unfold ClassDecl.parameters
  rcases hk : c.constructor? with _ | k <;> rcases hk' : c'.constructor? with _ | k' <;> simp [hk, hk'] at hconstructor
  · rfl
  · show k'.parameters.isEmpty = k.parameters.isEmpty
    rw [← isEmpty_placeless, hconstructor, isEmpty_placeless]

/-! ## One file -/

/-- A file with a migrated class binds the accessor in the second run. -/
theorem surfaceEdits_readAfter_migrated [GlobReader] (h : u.IsReadAfter r p u')
    (hmigrated : ∃ c, (u, c) ∈ migratedClasses r p) :
    surfaceEdits r u' = .ok [] := by
  obtain ⟨i, hi, hmodule, hbinds⟩ := h.imports_migrated hmigrated
  have hbound : bindsAccessor r u' = true :=
    List.any_eq_true.mpr ⟨i, SourceUnit.mem_importsFrom.mpr ⟨hi, hmodule⟩, hbinds⟩
  simp [surfaceEdits, hbound]

/-- Any other file has the import surface that it had. -/
theorem surfaceEdits_readAfter_other [GlobReader] (h : u.IsReadAfter r p u')
    (hother : ¬ ∃ c, (u, c) ∈ migratedClasses r p) :
    surfaceEdits r u' = surfaceEdits r u := by
  have himports : u'.imports = u.imports := h.imports_other hother
  simp [surfaceEdits, bindsAccessor, SourceUnit.importsFrom, himports, h.path_eq]

/-- What becomes of a selected class in the second run. -/
theorem fateOf_readAfter [GlobReader] (hdistinct : p.HasDistinctPaths) (hu : u ∈ p.units) (h : u.IsReadAfter r p u')
    (hselected : c ∈ selectedIn r u) (hc : c.IsReadAfter r p u c') :
    fateOf r u' c' = (fateOf r u c).again := by
  have hmem : (u, c) ∈ migratedClasses r p ↔ fateOf r u c = .migrated := by
    simp [mem_migratedClasses hdistinct, migratedAmong, hu, hselected]
  by_cases hmigrated : fateOf r u c = .migrated
  · -- its parameters are gone
    have hempty : c'.parameters = [] := hc.migrated (hmem.mpr hmigrated)
    rw [hmigrated, fateOf, hempty]
    rfl
  · -- its constructor is as it was, so only the import surface can make a difference
    have hconstructor := hc.other fun hin => hmigrated (hmem.mp hin)
    have hparameters := isEmpty_parameters_of_eq hconstructor
    by_cases hempty : c.parameters.isEmpty = true
    · rw [fateOf, fateOf, hparameters, if_pos hempty, if_pos hempty]
      rfl
    · rcases hs : surfaceEdits r u with refusal | es
      · -- a file whose surface is refused has no migrated class
        have hother : ¬ ∃ d, (u, d) ∈ migratedClasses r p := by
          rintro ⟨d, hd⟩
          have hmigrated := (List.mem_filter.mp ((mem_migratedClasses hdistinct).mp hd).2).2
          obtain ⟨-, ⟨es, hes⟩, -⟩ := fateOf_migrated_iff.mp (of_decide_eq_true hmigrated)
          rw [hs] at hes
          cases hes
        rw [fateOf, fateOf, hparameters, surfaceEdits_readAfter_other h hother, hs, if_neg hempty]
        rfl
      · -- the members are refused, in either surface
        have hrefused : ∃ refusal, memberEdits r c = .error refusal := by
          rcases hm : memberEdits r c with refusal | es'
          · exact ⟨refusal, rfl⟩
          · exact absurd (fateOf_migrated_iff.mpr ⟨by simpa using hempty, ⟨es, hs⟩, es', hm⟩) hmigrated
        obtain ⟨refusal, hm⟩ := hrefused
        have hm' : memberEdits r c' = .error refusal := memberEdits_error_of_eq hc.name_eq hconstructor hm
        have hs' : ∃ es', surfaceEdits r u' = .ok es' := by
          by_cases hany : ∃ d, (u, d) ∈ migratedClasses r p
          · exact ⟨[], surfaceEdits_readAfter_migrated h hany⟩
          · exact ⟨es, (surfaceEdits_readAfter_other h hany).trans hs⟩
        obtain ⟨es', hs'⟩ := hs'
        rw [fateOf, fateOf, hparameters, hs, hs', hm, hm', if_neg hempty]
        rfl

/-- A class with one that is read in its place and has the fate that the first one has in the second run. -/
structure IsFatedAgain (r : Request) (u u' : SourceUnit) (c c' : ClassDecl) : Prop where
  name_eq : c'.name = c.name
  file : c.file.same c'.file = true
  fate_eq : fateOf r u' c' = (fateOf r u c).again

/-- The classes that are selected in the second run are those read in the place of the selected ones. -/
theorem selectedIn_readAfter [GlobReader] (hdistinct : p.HasDistinctPaths) (hu : u ∈ p.units) (h : u.IsReadAfter r p u')
    (howns : u.OwnsClasses) (howns' : u'.OwnsClasses) :
    List.Forall₂ (IsFatedAgain r u u') (selectedIn r u) (selectedIn r u') := by
  -- whether a class is selected depends on its name and on where its file stands
  have hselected : List.Forall₂ (ClassDecl.IsReadAfter r p u) (selectedIn r u) (selectedIn r u') := by
    unfold selectedIn
    rcases Selector.ofRequest r with failure | s
    · exact List.Forall₂.nil
    · refine List.rel_filter ?_ h.classes
      intro c c' hc
      simp only [Selector.selects, h.relativePath_eq, hc.name_eq]
  rw [List.forall₂_iff_zip] at hselected ⊢
  refine ⟨hselected.1, ?_⟩
  intro c c' hzip
  obtain ⟨hc, hc'⟩ := List.of_mem_zip hzip
  have hread : c.IsReadAfter r p u c' := hselected.2 hzip
  exact {
    name_eq := hread.name_eq
    file := by
      have hfile := howns c (mem_of_mem_selectedIn hc)
      have hfile' := howns' c' (mem_of_mem_selectedIn hc')
      rw [Path.same_iff] at hfile hfile' ⊢
      rw [hfile, hfile', h.path_eq]
    fate_eq := fateOf_readAfter hdistinct hu h hc hread }

/-- What classes of a file add up to in the second run, by what they have added up to in the first one. -/
structure AddUpAgain (r : Request) (u u' : SourceUnit) (cs cs' : List ClassDecl) : Prop where
  migrated : migratedAmong r u' cs' = []
  skipped : cs'.countP (fun c => fateOf r u' c = .skipped) =
    cs.countP (fun c => fateOf r u c = .skipped) + (migratedAmong r u cs).length
  failures : List.Forall₂ ClassFailure.IsSame (failuresAmong r u cs) (failuresAmong r u' cs')

theorem addUpAgain {cs cs' : List ClassDecl} (h : List.Forall₂ (IsFatedAgain r u u') cs cs') :
    AddUpAgain r u u' cs cs' := by
  induction h with
  | nil => exact ⟨rfl, rfl, List.Forall₂.nil⟩
  | @cons c c' cs cs' hc _ ih =>
    have hother : fateOf r u' c' ≠ .migrated := by simp [hc.fate_eq]
    refine ⟨by rw [migratedAmong_cons_other hother, ih.migrated], ?_, ?_⟩
    · rw [List.countP_cons, List.countP_cons, ih.skipped, hc.fate_eq]
      rcases hf : fateOf r u c with _ | _ | refusal
      · rw [migratedAmong_cons_other (by simp [hf])]
        simp only [Fate.again, decide_true, if_true]
        omega
      · -- what was migrated is skipped now
        rw [migratedAmong_cons_migrated hf]
        simp [Fate.again, Nat.add_assoc]
      · rw [migratedAmong_cons_other (by simp [hf])]
        simp [Fate.again]
    · rw [failuresAmong_cons, failuresAmong_cons, hc.fate_eq, Fate.refusal?_again]
      rcases (fateOf r u c).refusal? with _ | refusal
      · exact ih.failures
      · refine List.Forall₂.cons ⟨hc.file, hc.name_eq.symm, rfl, rfl⟩ ih.failures

/-! ## All files -/

/-- A project that is read again has files of the same paths, which are different. -/
theorem hasDistinctPaths_readAfter [GlobReader] (h : p.IsReadAfter r p') (hdistinct : p.HasDistinctPaths) :
    p'.HasDistinctPaths := by
  have hpaths : p.units.map SourceUnit.path = p'.units.map SourceUnit.path := by
    rw [← List.forall₂_eq_eq_eq, List.forall₂_map_left_iff, List.forall₂_map_right_iff]
    exact h.imp fun _ _ hu => hu.path_eq.symm
  have hpairs : (p.units.map SourceUnit.path).Pairwise fun a b => a.same b = false := List.pairwise_map.mpr hdistinct
  rw [hpaths] at hpairs
  exact List.pairwise_map.mp hpairs

/-- What the files of a project add up to in the second run. -/
theorem sums_readAfter [GlobReader] {us us' : List SourceUnit}
    (h : List.Forall₂ (fun u u' => AddUpAgain r u u' (selectedIn r u) (selectedIn r u')) us us') :
    (us'.flatMap fun u => fileEdits r u (selectedIn r u)) = [] ∧
    (us'.map fun u => (migratedAmong r u (selectedIn r u)).length).sum = 0 ∧
    (us'.map fun u => (selectedIn r u).countP fun c => fateOf r u c = .skipped).sum =
      (us.map fun u => (selectedIn r u).countP fun c => fateOf r u c = .skipped).sum +
        (us.map fun u => (migratedAmong r u (selectedIn r u)).length).sum ∧
    List.Forall₂ ClassFailure.IsSame (us.flatMap fun u => failuresAmong r u (selectedIn r u))
      (us'.flatMap fun u => failuresAmong r u (selectedIn r u)) := by
  induction h with
  | nil => exact ⟨rfl, rfl, rfl, List.Forall₂.nil⟩
  | @cons u u' us us' hu _ ih =>
    obtain ⟨hedits, hmigrated, hskipped, hfailures⟩ := ih
    refine ⟨?_, ?_, ?_, ?_⟩
    · rw [List.flatMap_cons, hedits, List.append_nil]
      simp [fileEdits, editsBehind, hu.migrated]
    · simp [hu.migrated, hmigrated]
    · simp only [List.map_cons, List.sum_cons, hu.skipped, hskipped]
      omega
    · rw [List.flatMap_cons, List.flatMap_cons]
      exact List.rel_append hu.failures hfailures

/-- What the plan of a second run comes to, by the plan of the first one. -/
structure Plan.ChangesNothing (plan again : Plan) : Prop where
  log_eq : again.log = .empty
  modified_eq : again.modified = 0
  skipped_eq : again.skipped = plan.skipped + plan.modified
  failures : List.Forall₂ ClassFailure.IsSame plan.failures again.failures

/--
**A second run changes nothing**: a project that is read again when its plan has been carried out has a plan without
edits, in which the migrated classes are skipped, and the refused classes are refused for the reasons for which they
were refused before, in the same order.
-/
theorem second_plan_changes_nothing [GlobReader] {plan : Plan} (hplan : (planProject r p).answer = .ok plan)
    (hdistinct : p.HasDistinctPaths) (howns : ∀ u ∈ p.units, u.OwnsClasses) (hread : p.IsReadAfter r p')
    (howns' : ∀ u ∈ p'.units, u.OwnsClasses) :
    ∃ again, (planProject r p').answer = .ok again ∧ plan.ChangesNothing again := by
  obtain ⟨hglobs, rfl⟩ := planProject_eq_ok_iff.mp hplan
  refine ⟨_, planProject_eq_ok_iff.mpr ⟨hglobs, rfl⟩, ?_⟩
  have hfiles : List.Forall₂ (fun u u' => AddUpAgain r u u' (selectedIn r u) (selectedIn r u')) p.units p'.units := by
    rw [List.forall₂_iff_zip]
    refine ⟨hread.length_eq, ?_⟩
    intro u u' hzip
    obtain ⟨hu, hu'⟩ := List.of_mem_zip hzip
    exact addUpAgain (selectedIn_readAfter hdistinct hu (List.forall₂_zip hread hzip) (howns u hu) (howns' u' hu'))
  obtain ⟨hedits, hmigrated, hskipped, hfailures⟩ := sums_readAfter hfiles
  rw [ofClasses_eq hdistinct, ofClasses_eq (hasDistinctPaths_readAfter hread hdistinct), hedits, hmigrated, hskipped]
  exact {
    log_eq := rfl
    modified_eq := rfl
    skipped_eq := by simp [Plan.grow, Plan.empty]
    failures := by simpa [Plan.grow, Plan.empty] using hfailures }

/-- The file `restAndPlain` as it is read when its plan has been carried out. -/
def restAndPlainAgain : SourceUnit where
  path := ⟨"/p/a.ts"⟩
  relativePath := ⟨"a.ts"⟩
  text := "import \x7b C, inject \x7d from '@angular/core';\n" ++
    "class AComponent \x7b constructor(...a: A) \x7b\x7d \x7d\n" ++
    "class BComponent \x7b\n    b: B = inject(B);\n constructor() \x7b\x7d \x7d\n"
  classes := [
    ⟨"AComponent", ⟨"/p/a.ts"⟩, ⟨43, 87⟩, 61, "    ", true, .lf,
      some ⟨[⟨"a", .rest, some "A", false, false, none, [], ⟨74, 81⟩⟩], ⟨74, 81⟩, 0⟩⟩,
    ⟨"BComponent", ⟨"/p/a.ts"⟩, ⟨88, 148⟩, 106, "    ", true, .lf, some ⟨[], ⟨142, 142⟩, 0⟩⟩]
  imports := [⟨"@angular/core", ["C", "inject"], [], false, ⟨0, 42⟩, .afterLastSpecifier 18⟩]
  hasSyntaxErrors := false

/-- The project of that file. -/
def restAndPlainAgainProject : Project := ⟨⟨"/p"⟩, [restAndPlainAgain]⟩

theorem restAndPlain_isReadAfter :
    restAndPlainProject.IsReadAfter (.forRoot ⟨"/p"⟩) restAndPlainAgainProject := by
  have hmigrated : migratedClasses (.forRoot ⟨"/p"⟩) restAndPlainProject =
      restAndPlain.classes.tail.map fun c => (restAndPlain, c) := by
    decide +kernel
  refine List.Forall₂.cons ?_ List.Forall₂.nil
  refine ⟨rfl, rfl, ?_, ?_, ?_⟩
  · refine List.Forall₂.cons ⟨rfl, ?_, ?_⟩ (List.Forall₂.cons ⟨rfl, ?_, ?_⟩ List.Forall₂.nil) <;> rw [hmigrated]
    · decide +kernel
    · exact fun _ => rfl
    · exact fun _ => rfl
    · decide +kernel
  · exact fun _ => ⟨_, List.mem_singleton_self _, rfl, by decide⟩
  · intro hnone
    exact absurd ⟨_, by rw [hmigrated]; exact List.mem_cons_self⟩ hnone

/-- The tree of the file before its migration. -/
def restAndPlainTree : SyntaxNode :=
  .rule "program" none 0 122 [
    .rule "import_statement" none 0 34 [
      .token "import" 0,
      .rule "import_clause" none 7 12 [
        .rule "named_imports" none 7 12 [
          .token "\x7b" 7, .rule "import_specifier" none 9 10 [.rule "identifier" (some "name") 9 10 []],
          .token "\x7d" 11]],
      .token "from" 13,
      .rule "string" (some "source") 18 33 [.token "'" 18, .rule "string_fragment" none 19 32 [], .token "'" 32],
      .token ";" 33],
    .rule "class_declaration" none 35 79 [
      .token "class" 35, .rule "type_identifier" (some "name") 41 51 [],
      .rule "class_body" (some "body") 52 79 [
        .token "\x7b" 52,
        .rule "method_definition" none 54 77 [
          .rule "property_identifier" (some "name") 54 65 [],
          .rule "formal_parameters" (some "parameters") 65 74 [
            .token "(" 65,
            .rule "required_parameter" none 66 73 [
              .rule "rest_pattern" (some "pattern") 66 70 [.token "..." 66, .rule "identifier" none 69 70 []],
              .rule "type_annotation" (some "type") 70 73 [.token ":" 70, .rule "type_identifier" none 72 73 []]],
            .token ")" 73],
          .rule "statement_block" (some "body") 75 77 [.token "\x7b" 75, .token "\x7d" 76]],
        .token "\x7d" 78]],
    .rule "class_declaration" none 80 121 [
      .token "class" 80, .rule "type_identifier" (some "name") 86 96 [],
      .rule "class_body" (some "body") 97 121 [
        .token "\x7b" 97,
        .rule "method_definition" none 99 119 [
          .rule "property_identifier" (some "name") 99 110 [],
          .rule "formal_parameters" (some "parameters") 110 116 [
            .token "(" 110,
            .rule "required_parameter" none 111 115 [
              .rule "identifier" (some "pattern") 111 112 [],
              .rule "type_annotation" (some "type") 112 115 [.token ":" 112, .rule "type_identifier" none 114 115 []]],
            .token ")" 115],
          .rule "statement_block" (some "body") 117 119 [.token "\x7b" 117, .token "\x7d" 118]],
        .token "\x7d" 120]]]

/-- The tree of the file after its migration. -/
def restAndPlainAgainTree : SyntaxNode :=
  .rule "program" none 0 149 [
    .rule "import_statement" none 0 42 [
      .token "import" 0,
      .rule "import_clause" none 7 20 [
        .rule "named_imports" none 7 20 [
          .token "\x7b" 7, .rule "import_specifier" none 9 10 [.rule "identifier" (some "name") 9 10 []],
          .token "," 10, .rule "import_specifier" none 12 18 [.rule "identifier" (some "name") 12 18 []],
          .token "\x7d" 19]],
      .token "from" 21,
      .rule "string" (some "source") 26 41 [.token "'" 26, .rule "string_fragment" none 27 40 [], .token "'" 40],
      .token ";" 41],
    .rule "class_declaration" none 43 87 [
      .token "class" 43, .rule "type_identifier" (some "name") 49 59 [],
      .rule "class_body" (some "body") 60 87 [
        .token "\x7b" 60,
        .rule "method_definition" none 62 85 [
          .rule "property_identifier" (some "name") 62 73 [],
          .rule "formal_parameters" (some "parameters") 73 82 [
            .token "(" 73,
            .rule "required_parameter" none 74 81 [
              .rule "rest_pattern" (some "pattern") 74 78 [.token "..." 74, .rule "identifier" none 77 78 []],
              .rule "type_annotation" (some "type") 78 81 [.token ":" 78, .rule "type_identifier" none 80 81 []]],
            .token ")" 81],
          .rule "statement_block" (some "body") 83 85 [.token "\x7b" 83, .token "\x7d" 84]],
        .token "\x7d" 86]],
    .rule "class_declaration" none 88 148 [
      .token "class" 88, .rule "type_identifier" (some "name") 94 104 [],
      .rule "class_body" (some "body") 105 148 [
        .token "\x7b" 105,
        .rule "public_field_definition" none 111 127 [
          .rule "property_identifier" (some "name") 111 112 [],
          .rule "type_annotation" (some "type") 112 115 [.token ":" 112, .rule "type_identifier" none 114 115 []],
          .token "=" 116,
          .rule "call_expression" (some "value") 118 127 [
            .rule "identifier" (some "function") 118 124 [],
            .rule "arguments" (some "arguments") 124 127 [
              .token "(" 124, .rule "identifier" none 125 126 [], .token ")" 126]]],
        .token ";" 127,
        .rule "method_definition" none 130 146 [
          .rule "property_identifier" (some "name") 130 141 [],
          .rule "formal_parameters" (some "parameters") 141 143 [.token "(" 141, .token ")" 142],
          .rule "statement_block" (some "body") 144 146 [.token "\x7b" 144, .token "\x7d" 145]],
        .token "\x7d" 147]]]

def restAndPlainFile : ParsedFile where
  unit := restAndPlain
  root := restAndPlainTree
  isReadFrom := SourceUnit.isReadFrom_of (toList_append_ofList (toList_append_ofList String.toList_ofList)) (by decide +kernel)

set_option maxRecDepth 1024 in
def restAndPlainAgainFile : ParsedFile where
  unit := restAndPlainAgain
  root := restAndPlainAgainTree
  isReadFrom := SourceUnit.isReadFrom_of (toList_append_ofList (toList_append_ofList String.toList_ofList)) (by decide +kernel)

set_option maxRecDepth 1024 in
/-- The edits of the first run lead to the second text. -/
theorem migratedText_restAndPlain :
    let r := Request.forRoot ⟨"/p"⟩
    migratedText r ((Plan.ofClasses r (selectedClasses r restAndPlainProject.units)).importEdits r restAndPlain)
      (modifiedClasses r restAndPlainProject restAndPlain) restAndPlain.text = restAndPlainAgain.text := by
  intro r
  rw [migratedText, show restAndPlain.text.toList = _ from toList_append_ofList (toList_append_ofList String.toList_ofList)]
  decide +kernel

/-- The class with a rest parameter is refused in both runs, the other one is migrated in the first run only. -/
theorem second_plan_changes_nothing_rest :
    let r := Request.forRoot ⟨"/p"⟩
    ∃ plan again, (planProject r restAndPlainProject).answer = .ok plan ∧
      plan.log.apply restAndPlain.path restAndPlain.text = .ok restAndPlainAgain.text ∧
      restAndPlainAgainProject.IsParsed (.ofFiles [restAndPlainAgainFile]) ∧ restAndPlainProject.HasDistinctPaths ∧
      (∀ u ∈ restAndPlainProject.units, u.OwnsClasses) ∧
      restAndPlainProject.IsReadAfter r restAndPlainAgainProject ∧
      (∀ u ∈ restAndPlainAgainProject.units, u.OwnsClasses) ∧ plan.modified = 1 ∧ plan.failures.length = 1 ∧
      (planProject r restAndPlainAgainProject).answer = .ok again ∧ plan.ChangesNothing again := by
  intro r
  obtain ⟨plan, hplan, rfl⟩ := exists_plan (r := r) (by decide +kernel) restAndPlainProject
  have hdistinct : restAndPlainProject.HasDistinctPaths := List.pairwise_singleton _ _
  have howns : ∀ u ∈ restAndPlainProject.units, u.OwnsClasses := by
    unfold SourceUnit.OwnsClasses
    decide +kernel
  have howns' : ∀ u ∈ restAndPlainAgainProject.units, u.OwnsClasses := by
    unfold SourceUnit.OwnsClasses
    decide +kernel
  have happly := apply_of_not_isEntangled hplan hdistinct howns (List.mem_singleton_self restAndPlain)
    restAndPlainFile.isReadFrom (by decide +kernel)
  have htext : (Plan.ofClasses r (selectedClasses r restAndPlainProject.units)).log.apply restAndPlain.path
      restAndPlain.text = .ok restAndPlainAgain.text :=
    happly.trans (congrArg Except.ok migratedText_restAndPlain)
  obtain ⟨again, hagain, hnothing⟩ :=
    second_plan_changes_nothing hplan hdistinct howns restAndPlain_isReadAfter howns'
  exact ⟨_, again, hplan, htext, Parser.isParsed_ofFiles restAndPlainAgainFile _, hdistinct, howns,
    restAndPlain_isReadAfter, howns',
    by decide +kernel, by decide +kernel, hagain, hnothing⟩

end

end FieldInjection
