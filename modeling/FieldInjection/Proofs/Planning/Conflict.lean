import FieldInjection.Proofs.Planning.Effect
import FieldInjection.Proofs.TypeScript.Layout

/-!
# When the edits of a plan conflict

Each class is planned without a look at the others. In files that were read from source texts without errors its edits
get in the way of other edits in one case only: when fields are inserted or an import is changed inside the parameter
list of a class that is migrated too, as it happens where a class is declared in the default value of a parameter. The
edits of a file can be applied exactly where this is not so (`apply_isOk_iff`).
-/

namespace FieldInjection

/-- The units of the project were read from source texts with the parser. -/
def Project.IsParsed (parse : Parser) (p : Project) : Prop :=
  ∀ u ∈ p.units, ∃ path relativePath text, u = TypeScript.readUnit path relativePath text parse

/-- The parser found no errors in the units of the project. -/
def Project.HasNoErrors (p : Project) : Prop := ∀ u ∈ p.units, u.hasSyntaxErrors = false

/-- The unit was read from a tree whose nodes stand where they say and have the shapes of the grammar. -/
structure SourceUnit.IsReadFrom (u : SourceUnit) (tree : SyntaxTree) : Prop where
  eq : u = TypeScript.readTree u.path u.relativePath u.text tree
  placed : tree.root.ArePlaced u.text.toList
  shaped : tree.root.AreShaped

/-- Where a plan inserts fields into a file or changes its imports. -/
def changePlaces [GlobReader] (r : Request) (p : Project) (plan : Plan) (u : SourceUnit) : List TextRange :=
  (modifiedClasses r p u).map (fun c => .empty c.bodyStart) ++ (plan.importEdits r u).map TextEdit.range

/-- Some of these places stands in the parameter list of a class that is migrated. -/
def IsEntangled [GlobReader] (r : Request) (p : Project) (plan : Plan) (u : SourceUnit) : Prop :=
  ∃ c ∈ modifiedClasses r p u, ∃ place ∈ changePlaces r p plan u, ¬ place.IsApartFrom c.parameterList

instance [GlobReader] (r : Request) (p : Project) (plan : Plan) (u : SourceUnit) : Decidable (IsEntangled r p plan u) :=
  inferInstanceAs (Decidable (∃ c ∈ modifiedClasses r p u, ∃ place ∈ changePlaces r p plan u,
    ¬ place.IsApartFrom c.parameterList))

section
variable {parse : Parser} {r : Request} {p : Project} {u : SourceUnit} {c : ClassDecl} {tree : SyntaxTree}

/-! ## One file -/

theorem Project.IsParsed.ownsClasses (hparsed : p.IsParsed parse) : ∀ v ∈ p.units, v.OwnsClasses := by
  intro v hv c hc
  obtain ⟨path, relativePath, text, rfl⟩ := hparsed v hv
  rw [TypeScript.file_readTree hc]
  exact Path.same_self path

theorem Project.IsParsed.exists_tree (hparsed : p.IsParsed parse) (hplaces : parse.PlacesNodes)
    (hgrammar : parse.FollowsGrammar) (hu : u ∈ p.units) (herrors : u.hasSyntaxErrors = false) :
    ∃ tree, u.IsReadFrom tree := by
  obtain ⟨path, relativePath, text, rfl⟩ := hparsed u hu
  exact ⟨parse (TypeScript.grammarOf path) text, rfl, hplaces _ _ herrors, hgrammar _ _ herrors⟩

theorem modifiedClasses_sublist [GlobReader] (hdistinct : p.HasDistinctPaths) (hu : u ∈ p.units) :
    (modifiedClasses r p u).Sublist u.classes := by
  rw [modifiedClasses_eq hdistinct hu]
  refine List.filter_sublist.trans ?_
  unfold selectedIn
  split
  · exact List.filter_sublist
  · exact List.nil_sublist _

/-- A file was read from a tree if what it holds is what is found there. -/
theorem SourceUnit.isReadFrom_of {source : List Char} (hsource : u.text.toList = source)
    (h : tree.root.ArePlaced source ∧ tree.root.AreShaped ∧
      u.classes = tree.root.nodes.filterMap (TypeScript.readClass? u.path source) ∧
      u.imports = tree.root.nodes.filterMap (TypeScript.readImport? source) ∧ u.hasSyntaxErrors = tree.hasError) :
    u.IsReadFrom tree := by
  subst hsource
  obtain ⟨hplaced, hshaped, hclasses, himports, herrors⟩ := h
  exact ⟨TypeScript.eq_readTree hplaced hshaped hclasses himports herrors, hplaced, hshaped⟩

/-- A project was read with a parser if its files were read from the trees that it gives. -/
theorem Project.isParsed_of (h : ∀ u ∈ p.units, u.IsReadFrom (parse (TypeScript.grammarOf u.path) u.text)) :
    p.IsParsed parse :=
  fun u hu => ⟨u.path, u.relativePath, u.text, (h u hu).eq⟩

/-- A file with the tree from which it was read. -/
structure ParsedFile where
  unit : SourceUnit
  root : SyntaxNode
  isReadFrom : unit.IsReadFrom ⟨root, false⟩

/-- A parser that knows the trees of some files. -/
def Parser.ofFiles (fs : List ParsedFile) : Parser := .ofTable (fs.map fun f => (f.unit.text, f.root))

namespace Parser

variable {fs : List ParsedFile} {f : ParsedFile}

theorem ofFiles_placesNodes : (ofFiles fs).PlacesNodes :=
  ofTable_placesNodes (List.forall_mem_map.mpr fun f _ => f.isReadFrom.placed)

theorem ofFiles_followsGrammar : (ofFiles fs).FollowsGrammar :=
  ofTable_followsGrammar (List.forall_mem_map.mpr fun f _ => f.isReadFrom.shaped)

/-- It gives each file its tree. -/
theorem ofFiles_eq (hdistinct : fs.Pairwise fun f g => g.unit.text ≠ f.unit.text) (hf : f ∈ fs) (grammar : Grammar) :
    ofFiles fs grammar f.unit.text = ⟨f.root, false⟩ := by
  unfold ofFiles
  induction fs with
  | nil => cases hf
  | cons g fs ih =>
    obtain ⟨hne, hdistinct⟩ := List.pairwise_cons.mp hdistinct
    rcases List.mem_cons.mp hf with rfl | hf
    · exact ofTable_cons_self ..
    · exact (ofTable_cons_of_ne (hne f hf) ..).trans (ih hdistinct hf)

/-- So each file is read from its text. -/
theorem readUnit_ofFiles (hdistinct : fs.Pairwise fun f g => g.unit.text ≠ f.unit.text) (hf : f ∈ fs) :
    TypeScript.readUnit f.unit.path f.unit.relativePath f.unit.text (ofFiles fs) = f.unit := by
  rw [TypeScript.readUnit, ofFiles_eq hdistinct hf]
  exact f.isReadFrom.eq.symm

theorem isParsed_ofFiles (f : ParsedFile) (dir : Path) : Project.IsParsed (ofFiles [f]) ⟨dir, [f.unit]⟩ := by
  refine Project.isParsed_of ?_
  intro u hu
  obtain rfl := List.mem_singleton.mp hu
  rw [ofFiles_eq (List.pairwise_singleton _ _) (List.mem_singleton_self f)]
  exact f.isReadFrom

end Parser

/-- The imports of a file are changed at places of its tree. -/
theorem importEdits_place [GlobReader] (hread : u.IsReadFrom tree) (hdistinct : p.HasDistinctPaths) (hmem : u ∈ p.units)
    {e : TextEdit} (he : e ∈ (Plan.ofClasses r (selectedClasses r p.units)).importEdits r u) :
    TypeScript.IsImportPlace u.text.toList tree.root e.range := by
  rw [importEdits_plan hdistinct hmem] at he
  obtain ⟨planned, hplanned, rfl⟩ := List.mem_map.mp he
  obtain ⟨-, -, hamend⟩ := mem_importEdits (mem_importEditsTaken hplanned)
  refine range_amend (P := TypeScript.IsImportPlace u.text.toList tree.root) hamend ?_
  intro i hi
  have himport := (List.mem_filter.mp hi).1
  rw [hread.eq] at himport
  exact TypeScript.readTree_changesAt hread.placed hread.shaped himport

/-- A place at which an import statement is changed is a range of the text. -/
theorem isValidFor_importPlace {range : TextRange} (hplace : TypeScript.IsImportPlace u.text.toList tree.root range) :
    range.isValidFor u.text.toList = true := by
  obtain ⟨statement, -, module, -, clause, -, hplace⟩ := hplace
  exact hplace.isValidFor

/-- The edits for a file that was read without errors can be applied if no change stands in a parameter list. -/
theorem apply_of_not_isEntangled [GlobReader] {plan : Plan} (hplan : (planProject r p).answer = .ok plan)
    (hdistinct : p.HasDistinctPaths) (howns : ∀ v ∈ p.units, v.OwnsClasses) (hu : u ∈ p.units) (hread : u.IsReadFrom tree)
    (hfree : ¬ IsEntangled r p plan u) :
    plan.log.apply u.path u.text =
      .ok (migratedText r (plan.importEdits r u) (modifiedClasses r p u) u.text) := by
  obtain ⟨-, rfl⟩ := planProject_eq_ok_iff.mp hplan
  have hsub := modifiedClasses_sublist (r := r) hdistinct hu
  have hclasses : ∀ c ∈ modifiedClasses r p u,
      c ∈ (TypeScript.readTree u.path u.relativePath u.text tree).classes := by
    intro c hc
    rw [← hread.eq]
    exact hsub.subset hc
  have hapartLists : ∀ c ∈ modifiedClasses r p u, ∀ place ∈ changePlaces r p (.ofClasses r (selectedClasses r p.units)) u,
      place.IsApartFrom c.parameterList := by
    intro c hc place hplace
    exact Classical.byContradiction fun h => hfree ⟨c, hc, place, hplace, h⟩
  have hbodies : ∀ c ∈ modifiedClasses r p u, ∀ d ∈ modifiedClasses r p u,
      (TextRange.empty c.bodyStart).IsApartFrom d.parameterList := by
    intro c hc d hd
    exact hapartLists d hd _ (List.mem_append_left _ (List.mem_map_of_mem hc))
  obtain ⟨hplain, hpairwise⟩ := importEdits_spec (r := r) hdistinct hu
  rw [EditLog.apply, forFile_plan hdistinct howns hu, fileEdits_map_edit hdistinct hu]
  refine applyEdits_eq_migratedText (fun c hc => fateOf_of_mem_modifiedClasses hdistinct hu hc) ?_ ?_ hplain hpairwise ?_
  · -- the offsets of the classes are in order
    intro c hc
    exact TypeScript.readTree_isLaidOut hread.placed hread.shaped (hclasses c hc)
  · -- the classes are apart
    have hpairs : u.classes.Pairwise fun c d => (TextRange.empty c.bodyStart).IsApartFrom d.parameterList →
        (TextRange.empty d.bodyStart).IsApartFrom c.parameterList → c.AreApart d := by
      rw [hread.eq]
      exact TypeScript.readTree_areApart hread.placed hread.shaped
    refine (hpairs.sublist hsub).imp_of_mem ?_
    intro c d hc hd h
    exact h (hbodies c hc d hd) (hbodies d hd c hc)
  · -- the import edit stands in no parameter list
    intro e he
    have hplace : e.range ∈ changePlaces r p (.ofClasses r (selectedClasses r p.units)) u :=
      List.mem_append_right _ (List.mem_map_of_mem he)
    have himport := importEdits_place hread hdistinct hu he
    refine ⟨isValidFor_importPlace himport, ?_⟩
    intro c hc
    obtain ⟨n, hn, hc'⟩ := TypeScript.mem_classes_readTree (hclasses c hc)
    exact ⟨TypeScript.apart_from_importPlace hread.placed hread.shaped hn himport hc', (hapartLists c hc _ hplace).symm⟩

/-- The edits for a file that was read without errors cannot be applied if a change stands in a parameter list. -/
theorem not_apply_of_isEntangled [GlobReader] {plan : Plan} (hplan : (planProject r p).answer = .ok plan)
    (hdistinct : p.HasDistinctPaths) (howns : ∀ v ∈ p.units, v.OwnsClasses) (hu : u ∈ p.units) (hread : u.IsReadFrom tree)
    (hentangled : IsEntangled r p plan u) : ¬ ∃ after, plan.log.apply u.path u.text = .ok after := by
  obtain ⟨-, rfl⟩ := planProject_eq_ok_iff.mp hplan
  have hsub := modifiedClasses_sublist (r := r) hdistinct hu
  have hclasses : ∀ c ∈ modifiedClasses r p u,
      c ∈ (TypeScript.readTree u.path u.relativePath u.text tree).classes := by
    intro c hc
    rw [← hread.eq]
    exact hsub.subset hc
  -- the edits would all be apart, but the change overlaps a deletion of the list that it stands in
  rintro ⟨after, happly⟩
  rw [EditLog.apply, forFile_plan hdistinct howns hu, fileEdits_map_edit hdistinct hu] at happly
  have hpairs := (applyEdits_isOk_iff.mp ⟨after, happly⟩).2
  obtain ⟨c, hc, place, hplace, hin⟩ := hentangled
  have hmigrated := fateOf_of_mem_modifiedClasses hdistinct hu hc
  have hlaid := TypeScript.readTree_isLaidOut hread.placed hread.shaped (hclasses c hc)
  obtain ⟨k, hk, -, -⟩ := map_edit_classEdits hmigrated
  have hparameters : c.parameters = k.parameters := by simp [ClassDecl.parameters, hk]
  have hin' : ¬ place.IsApartFrom k.parameterList := by
    rw [← parameterList_eq hk]
    exact hin
  have hmember : ∀ d ∈ modifiedClasses r p u, ∀ e ∈ (classEdits r d).map PlannedEdit.edit,
      e ∈ memberEditsOf r (modifiedClasses r p u) :=
    fun d hd e he => List.mem_flatMap.mpr ⟨d, hd, he⟩
  have hstarts := TypeScript.readTree_start_ne hread.placed hread.shaped (hclasses c hc) hk hin'
  rw [← hparameters] at hstarts
  rcases List.mem_append.mp hplace with hbody | himport
  · -- the fields of a class are inserted in the list
    obtain ⟨d, hd, rfl⟩ := List.mem_map.mp hbody
    obtain ⟨e, he, hoverlap⟩ := exists_overlapping_edit hmigrated hlaid (Nat.le_refl _) hin
      (hstarts (Or.inl ⟨d, hclasses d hd, rfl⟩))
    obtain ⟨f, hf, hrange⟩ := exists_insertion (fateOf_of_mem_modifiedClasses hdistinct hu hd)
    rw [← hrange] at hoverlap
    rcases eq_or_rel_of_pairwise (List.pairwise_append.mp hpairs).2.1 (hmember d hd f hf)
      (hmember c hc e he) with heq | happart | happart
    · rw [← heq, hrange] at hoverlap
      exact hoverlap (Or.inl (Nat.le_refl _))
    · exact hoverlap happart
    · exact hoverlap happart.symm
  · -- the import is changed in the list
    obtain ⟨e', he', rfl⟩ := List.mem_map.mp himport
    have hisPlace := importEdits_place hread hdistinct hu he'
    have hvalid := isValidFor_importPlace hisPlace
    simp only [TextRange.isValidFor, Bool.and_eq_true, decide_eq_true_eq] at hvalid
    obtain ⟨e, he, hoverlap⟩ := exists_overlapping_edit hmigrated hlaid hvalid.1.1 hin (hstarts (Or.inr hisPlace))
    exact hoverlap ((List.pairwise_append.mp hpairs).2.2 e' he' e (hmember c hc e he))

/-- The edits for a file that was read without errors can be applied exactly if no change stands in a parameter
list. -/
theorem apply_isOk_iff [GlobReader] {plan : Plan} (hplan : (planProject r p).answer = .ok plan)
    (hdistinct : p.HasDistinctPaths) (howns : ∀ v ∈ p.units, v.OwnsClasses) (hu : u ∈ p.units)
    (hread : u.IsReadFrom tree) : (∃ after, plan.log.apply u.path u.text = .ok after) ↔ ¬ IsEntangled r p plan u := by
  constructor
  · intro happly hentangled
    exact not_apply_of_isEntangled hplan hdistinct howns hu hread hentangled happly
  · intro hfree
    exact ⟨_, apply_of_not_isEntangled hplan hdistinct howns hu hread hfree⟩

end

/-- A file with a class in the default value of a constructor parameter. -/
def classInDefault : SourceUnit where
  path := ⟨"/p/a.ts"⟩
  relativePath := ⟨"a.ts"⟩
  text := "import \x7b C \x7d from '@angular/core';\n" ++
    "class OutComponent \x7b\n" ++
    "  constructor(a: A = (() => \x7b class InComponent \x7b constructor(b: B) \x7b\x7d \x7d \x7d)()) \x7b\x7d\n\x7d\n"
  classes := [
    ⟨"OutComponent", ⟨"/p/a.ts"⟩, ⟨35, 139⟩, 55, "  ", true, .lf,
      some ⟨[⟨"a", .identifier, some "A", false, false, none, [], ⟨70, 133⟩⟩], ⟨70, 133⟩, 0⟩⟩,
    ⟨"InComponent", ⟨"/p/a.ts"⟩, ⟨86, 128⟩, 105, "      ", true, .lf,
      some ⟨[⟨"b", .identifier, some "B", false, false, none, [], ⟨118, 122⟩⟩], ⟨118, 122⟩, 0⟩⟩]
  imports := [⟨"@angular/core", ["C"], [], false, ⟨0, 34⟩, .afterLastSpecifier 10⟩]
  hasSyntaxErrors := false

/-- The tree of that file. -/
def classInDefaultTree : SyntaxNode :=
  .rule "program" none 0 140 [
    .rule "import_statement" none 0 34 [
      .token "import" 0,
      .rule "import_clause" none 7 12 [
        .rule "named_imports" none 7 12 [
          .token "\x7b" 7, .rule "import_specifier" none 9 10 [.rule "identifier" (some "name") 9 10 []],
          .token "\x7d" 11]],
      .token "from" 13,
      .rule "string" (some "source") 18 33 [.token "'" 18, .rule "string_fragment" none 19 32 [], .token "'" 32],
      .token ";" 33],
    .rule "class_declaration" none 35 139 [
      .token "class" 35, .rule "type_identifier" (some "name") 41 53 [],
      .rule "class_body" (some "body") 54 139 [
        .token "\x7b" 54,
        .rule "method_definition" none 58 137 [
          .rule "property_identifier" (some "name") 58 69 [],
          .rule "formal_parameters" (some "parameters") 69 134 [
            .token "(" 69,
            .rule "required_parameter" none 70 133 [
              .rule "identifier" (some "pattern") 70 71 [],
              .rule "type_annotation" (some "type") 71 74 [.token ":" 71, .rule "type_identifier" none 73 74 []],
              .token "=" 75,
              .rule "call_expression" (some "value") 77 133 [
                .rule "parenthesized_expression" (some "function") 77 131 [
                  .token "(" 77,
                  .rule "arrow_function" none 78 130 [
                    .rule "formal_parameters" (some "parameters") 78 80 [.token "(" 78, .token ")" 79],
                    .token "=>" 81,
                    .rule "statement_block" (some "body") 84 130 [
                      .token "\x7b" 84,
                      .rule "class_declaration" none 86 128 [
                        .token "class" 86, .rule "type_identifier" (some "name") 92 103 [],
                        .rule "class_body" (some "body") 104 128 [
                          .token "\x7b" 104,
                          .rule "method_definition" none 106 126 [
                            .rule "property_identifier" (some "name") 106 117 [],
                            .rule "formal_parameters" (some "parameters") 117 123 [
                              .token "(" 117,
                              .rule "required_parameter" none 118 122 [
                                .rule "identifier" (some "pattern") 118 119 [],
                                .rule "type_annotation" (some "type") 119 122 [
                                  .token ":" 119, .rule "type_identifier" none 121 122 []]],
                              .token ")" 122],
                            .rule "statement_block" (some "body") 124 126 [.token "\x7b" 124, .token "\x7d" 125]],
                          .token "\x7d" 127]],
                      .token "\x7d" 129]],
                  .token ")" 130],
                .rule "arguments" (some "arguments") 131 133 [.token "(" 131, .token ")" 132]]],
            .token ")" 133],
          .rule "statement_block" (some "body") 135 137 [.token "\x7b" 135, .token "\x7d" 136]],
        .token "\x7d" 138]]]

/-- The project of that file. -/
def classInDefaultProject : Project := ⟨⟨"/p"⟩, [classInDefault]⟩

set_option maxRecDepth 1024 in
def classInDefaultFile : ParsedFile where
  unit := classInDefault
  root := classInDefaultTree
  isReadFrom := SourceUnit.isReadFrom_of (toList_append_ofList (toList_append_ofList String.toList_ofList))
    (by decide +kernel)

theorem classInDefaultProject_isParsed : classInDefaultProject.IsParsed (.ofFiles [classInDefaultFile]) :=
  Parser.isParsed_ofFiles classInDefaultFile _

theorem classInDefaultProject_hasNoErrors : classInDefaultProject.HasNoErrors := by
  intro u hu
  obtain rfl := List.mem_singleton.mp hu
  rfl

theorem classInDefault_isEntangled : IsEntangled (.forRoot ⟨"/p"⟩) classInDefaultProject
    (.ofClasses (.forRoot ⟨"/p"⟩) (selectedClasses (.forRoot ⟨"/p"⟩) classInDefaultProject.units))
    classInDefault := by
  decide +kernel

/-- No class of the file is refused, and yet the edits for the file cannot be applied: the fields of the inner class
are inserted in the parameter list of the outer one. -/
theorem class_in_default_conflicts :
    let parse := Parser.ofFiles [classInDefaultFile]
    parse.PlacesNodes ∧ parse.FollowsGrammar ∧
      (Selector.ofRequest (.forRoot ⟨"/p"⟩)).isOk = true ∧ classInDefaultProject.HasDistinctPaths ∧
      classInDefaultProject.IsParsed parse ∧ classInDefaultProject.HasNoErrors ∧
      ∃ plan, (planProject (.forRoot ⟨"/p"⟩) classInDefaultProject).answer = .ok plan ∧
        plan.failures = [] ∧ classInDefault ∈ classInDefaultProject.units ∧
        ¬ ∃ after, plan.log.apply classInDefault.path classInDefault.text = .ok after := by
  have hglobs : (Selector.ofRequest (.forRoot ⟨"/p"⟩)).isOk = true := by decide +kernel
  have hdistinct : classInDefaultProject.HasDistinctPaths := List.pairwise_singleton _ _
  have hu : classInDefault ∈ classInDefaultProject.units := List.mem_singleton.mpr rfl
  obtain ⟨plan, hplan, rfl⟩ := exists_plan hglobs classInDefaultProject
  refine ⟨Parser.ofFiles_placesNodes, Parser.ofFiles_followsGrammar, hglobs, hdistinct,
    classInDefaultProject_isParsed, classInDefaultProject_hasNoErrors, _, hplan, by decide +kernel, hu, ?_⟩
  exact not_apply_of_isEntangled hplan hdistinct classInDefaultProject_isParsed.ownsClasses hu
    classInDefaultFile.isReadFrom classInDefault_isEntangled

end FieldInjection
