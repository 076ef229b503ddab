import FieldInjection.Proofs.Planning.AccessorBindings

/-!
# The import of a migrated class

A class is migrated only if some import statement of its file can carry the accessor. Where all statements from the
accessor's module stand at the top level of the file, the one that binds the accessor afterwards stands there too
(`accessor_bound_in_scope`). But statements are found at any depth, so the one that is amended may also stand between
the braces of a module that is declared in the file, where no class sees what it binds
(`accessor_bound_out_of_scope`).
-/

namespace FieldInjection

open TypeScript

/-- The import statements that stand at the top level of a tree. -/
def topLevelStatements (root : SyntaxNode) : List SyntaxNode := root.children.filter fun n => n.kind == "import_statement"

/-- What is imported at the top level of a tree. -/
def topLevelImports (source : List Char) (root : SyntaxNode) : List ImportDecl :=
  root.children.filterMap (readImport? source)

/-- The statement imports values, and it binds the name already or can be made to bind it. -/
def ImportDecl.canBind (name : String) (i : ImportDecl) : Bool :=
  !i.isTypeOnly && (i.named.contains name || (i.typeOnlyNamed.any fun s => s.name = name) ||
    (ImportSurface.insertion name i.insertion).isOk)

section
variable {source source' : List Char} {name moduleName : String} {i : ImportDecl} {e : TextEdit} {n : SyntaxNode}
  {root root' : SyntaxNode}

theorem ImportDecl.canBind_of_binds (h : i.binds name = true) : i.canBind name = true := by
  obtain ⟨hvalue, hnamed⟩ := Bool.and_eq_true_iff.mp h
  rw [canBind, hvalue, hnamed]
  rfl

theorem ImportDecl.canBind_of_isAmendment (hvalue : i.isTypeOnly = false) (he : ImportSurface.IsAmendment name i e) :
    i.canBind name = true := by
  rw [canBind, hvalue]
  rcases he with ⟨s, hs, hname, -⟩ | he
  · have hany : (i.typeOnlyNamed.any fun s => s.name = name) = true :=
      List.any_eq_true.mpr ⟨s, hs, decide_eq_true hname⟩
    rw [hany, Bool.or_true]
    rfl
  · rw [he]
    exact Bool.or_true _

theorem mem_topLevelImports (hn : n ∈ topLevelStatements root) (hi : readImport? source n = some i) :
    i ∈ topLevelImports source root :=
  List.mem_filterMap.mpr ⟨n, List.mem_of_mem_filter hn, hi⟩

theorem mem_topLevelStatements (hn : n ∈ root.children) (hi : readImport? source n = some i) :
    n ∈ topLevelStatements root := by
  obtain ⟨module, himport, -⟩ := readImport?_eq_some hi
  exact List.mem_filter.mpr ⟨hn, by simp [himport.kind]⟩

/-- A statement that reads alike binds what it bound. -/
theorem exists_binds_of_alike (h : List.Forall₂ (SyntaxNode.IsAlike source source') (topLevelStatements root)
    (topLevelStatements root')) (hn : n ∈ root.children) (hi : readImport? source n = some i)
    (hbinds : i.binds name = true) :
    ∃ j ∈ topLevelImports source' root', j.moduleName = i.moduleName ∧ j.binds name = true := by
  obtain ⟨n', hn', halike⟩ := exists_of_mem_forall₂ h (mem_topLevelStatements hn hi)
  rcases cases_of_rel (readImport?_alike halike) with ⟨hnone, -⟩ | ⟨i', j, hi', hj, hij⟩
  · rw [hi] at hnone
    cases hnone
  · rw [hi] at hi'
    obtain rfl := Option.some.inj hi'
    refine ⟨j, mem_topLevelImports hn' hj, hij.moduleName.symm, ?_⟩
    rw [ImportDecl.binds, ← hij.named, ← hij.isTypeOnly]
    exact hbinds

/-- The statement that is amended binds the name. -/
theorem exists_binds_of_amended (h : DifferByEdit source source' name e n (topLevelStatements root)
    (topLevelStatements root')) (hamended : IsAmendedBy source moduleName name e n) :
    ∃ j ∈ topLevelImports source' root', j.moduleName = moduleName ∧ j.binds name = true := by
  obtain ⟨before, _, after, before', n', after', -, hstatements', -, ⟨rfl, hfollows⟩, -⟩ := h
  obtain ⟨j, hj, hmodule, hbinds⟩ := exists_binds_of_isAmendedBy hamended hfollows
  refine ⟨j, mem_topLevelImports ?_ hj, hmodule, hbinds⟩
  rw [hstatements']
  exact List.mem_append_right _ List.mem_cons_self

end

section
variable {parse : Parser} {r : Request} {p : Project} {u : SourceUnit} {c : ClassDecl}

/-- All import statements from the accessor's module stand at the top level of a tree. -/
def ImportsAtTop (r : Request) (source : List Char) (root : SyntaxNode) : Prop :=
  ∀ n ∈ root.nodes, ∀ i, readImport? source n = some i → i.moduleName = r.accessorModule → n ∈ root.children

/-- The import edit of a file, or what makes it unneeded. -/
theorem importEdits_of_migrated [GlobReader] (hdistinct : p.HasDistinctPaths) (hu : u ∈ p.units)
    (hmodified : modifiedClasses r p u ≠ []) :
    (bindsAccessor r u = true ∧ (Plan.ofClasses r (selectedClasses r p.units)).importEdits r u = []) ∨
      ∃ e ∈ importEdits r u, (Plan.ofClasses r (selectedClasses r p.units)).importEdits r u = [e.edit] := by
  rw [modifiedClasses_eq hdistinct hu] at hmodified
  have htaken : importEditsTaken r u (selectedIn r u) = importEdits r u := by
    rw [importEditsTaken, if_neg (by simpa using hmodified)]
  obtain ⟨c, hc⟩ := List.exists_mem_of_ne_nil _ hmodified
  have hmigrated : fateOf r u c = .migrated := by simpa using (List.mem_filter.mp hc).2
  obtain ⟨-, ⟨es, hes⟩, -⟩ := fateOf_migrated_iff.mp hmigrated
  rw [importEdits_plan hdistinct hu]
  rcases importEditsTaken_cases (r := r) (u := u) (selectedIn r u) with hnil | ⟨e, he, heq⟩
  · rw [hnil]
    exact Or.inl ⟨(importEdits_eq_nil_iff hes).mp (htaken ▸ hnil), rfl⟩
  · rw [heq]
    exact Or.inr ⟨e, he, rfl⟩

/-- Where no statement can carry the accessor, the file cannot be given it. -/
theorem surfaceEdits_of_cannotBind
    (hnone : ∀ i ∈ u.importsFrom r.accessorModule, i.canBind r.accessorFunction = false) :
    ∃ refusal, surfaceEdits r u = .error refusal := by
  cases hs : surfaceEdits r u with
  | error refusal => exact ⟨refusal, rfl⟩
  | ok es =>
    obtain ⟨i, hi, hcan⟩ : ∃ i ∈ u.importsFrom r.accessorModule, i.canBind r.accessorFunction = true := by
      unfold surfaceEdits at hs
      split at hs
      · rename_i hbinds
        obtain ⟨i, hi, hbinds⟩ := List.any_eq_true.mp hbinds
        exact ⟨i, hi, ImportDecl.canBind_of_binds hbinds⟩
      · split at hs
        · cases hs
        · rename_i hamend
          obtain ⟨i, hi, hvalue, hcase⟩ := ImportSurface.amend_eq_ok hamend
          exact ⟨i, hi, ImportDecl.canBind_of_isAmendment hvalue (hcase.imp id And.left)⟩
    rw [hnone i hi] at hcan
    cases hcan

/-- **A migrated class has the accessor in its scope**, if all import statements from the accessor's module stand at
the top level of its file. As long as the parser finds the statements that stand there in the text to which the edits
of a plan lead, one of them is from the module and binds the accessor as a value. If none of them can carry the
accessor, all classes of the file with parameters are refused for the import surface.
-/
theorem accessor_bound_in_scope [GlobReader] {plan : Plan} (hplan : (planProject r p).answer = .ok plan)
    (hdistinct : p.HasDistinctPaths) (hparsed : p.IsParsed parse) (hu : u ∈ p.units)
    (htop : ImportsAtTop r u.text.toList (u.treeOf parse u.text).root) :
    (∀ after, plan.log.apply u.path u.text = .ok after → modifiedClasses r p u ≠ [] →
      StatementsAgree u.text.toList after.toList r.accessorFunction (plan.importEdits r u).head?
        (topLevelStatements (u.treeOf parse u.text).root) (topLevelStatements (u.treeOf parse after).root) →
      ∃ i ∈ topLevelImports after.toList (u.treeOf parse after).root,
        i.moduleName = r.accessorModule ∧ i.binds r.accessorFunction = true) ∧
    ((∀ i ∈ topLevelImports u.text.toList (u.treeOf parse u.text).root,
        i.moduleName = r.accessorModule → i.canBind r.accessorFunction = false) →
      ∃ reason, plan.failures.filter (fun f => f.file.same u.path) =
        ((selectedIn r u).filter fun c => !c.parameters.isEmpty).map fun c =>
          ⟨c.file, c.name, .missingImportSurface, reason⟩) := by
  -- each statement of the module is one of those at the top level
  have hnodes : ∀ i ∈ u.importsFrom r.accessorModule, ∃ n ∈ (u.treeOf parse u.text).root.children,
      readImport? u.text.toList n = some i ∧ i.moduleName = r.accessorModule := by
    intro i hi
    obtain ⟨himport, hmodule⟩ := SourceUnit.mem_importsFrom.mp hi
    obtain ⟨path, relativePath, text, rfl⟩ := hparsed u hu
    obtain ⟨n, hn, hread⟩ := mem_imports_readTree himport
    exact ⟨n, htop n hn i hread hmodule, hread, hmodule⟩
  constructor
  · intro after _ hmodified hagree
    obtain ⟨-, rfl⟩ := planProject_eq_ok_iff.mp hplan
    rcases importEdits_of_migrated (r := r) hdistinct hu hmodified with ⟨hbinds, hnil⟩ | ⟨e, he, heq⟩
    · rw [hnil] at hagree
      obtain ⟨i, hi, hbinds⟩ := List.any_eq_true.mp hbinds
      obtain ⟨n, hn, hread, hmodule⟩ := hnodes i hi
      rw [← hmodule]
      exact exists_binds_of_alike hagree hn hread hbinds
    · -- the statement that is amended is one of them
      rw [heq] at hagree
      obtain ⟨n, hn, hamended⟩ := exists_isAmendedBy_of_importEdit hparsed hu he
      have ⟨i, hread, hmodule, _⟩ := hamended
      have hmem := mem_topLevelStatements (htop n (List.mem_of_mem_filter hn) i hread hmodule) hread
      exact exists_binds_of_amended (hagree n hmem (isWrittenIn_of_isAmendedBy hamended)) hamended
  · intro hnone
    obtain ⟨refusal, hs⟩ := surfaceEdits_of_cannotBind (r := r) (u := u) fun i hi => by
      obtain ⟨n, hn, hread, hmodule⟩ := hnodes i hi
      exact hnone i (mem_topLevelImports (mem_topLevelStatements hn hread) hread) hmodule
    exact (plan_of_surface_refused hplan hdistinct hparsed.ownsClasses hu hs).1

end

/-- A file that imports the accessor's module as a namespace. -/
def namespaceImport : SourceUnit where
  path := ⟨"/p/b.ts"⟩
  relativePath := ⟨"b.ts"⟩
  text := "import * as ng from '@angular/core';\nclass BComponent \x7b constructor(b: B) \x7b\x7d \x7d\n"
  classes := [⟨"BComponent", ⟨"/p/b.ts"⟩, ⟨37, 78⟩, 55, "    ", true, .lf,
    some ⟨[⟨"b", .identifier, some "B", false, false, none, [], ⟨68, 72⟩⟩], ⟨68, 72⟩, 0⟩⟩]
  imports := [⟨"@angular/core", [], [], false, ⟨0, 36⟩,
    .unsupported "namespace import cannot carry named bindings"⟩]
  hasSyntaxErrors := false

def namespaceImportTree : SyntaxNode :=
  .rule "program" none 0 79 [
    .rule "import_statement" none 0 36 [
      .token "import" 0,
      .rule "import_clause" none 7 14 [
        .rule "namespace_import" none 7 14 [.token "*" 7, .token "as" 9, .rule "identifier" none 12 14 []]],
      .token "from" 15,
      .rule "string" (some "source") 20 35 [.token "'" 20, .rule "string_fragment" none 21 34 [], .token "'" 34],
      .token ";" 35],
    .rule "class_declaration" none 37 78 [
      .token "class" 37, .rule "type_identifier" (some "name") 43 53 [],
      .rule "class_body" (some "body") 54 78 [
        .token "\x7b" 54,
        .rule "method_definition" none 56 76 [
          .rule "property_identifier" (some "name") 56 67 [],
          .rule "formal_parameters" (some "parameters") 67 73 [
            .token "(" 67,
            .rule "required_parameter" none 68 72 [
              .rule "identifier" (some "pattern") 68 69 [],
              .rule "type_annotation" (some "type") 69 72 [.token ":" 69, .rule "type_identifier" none 71 72 []]],
            .token ")" 72],
          .rule "statement_block" (some "body") 74 76 [.token "\x7b" 74, .token "\x7d" 75]],
        .token "\x7d" 77]]]

def topLevelProject : Project := ⟨⟨"/p"⟩, [plainComponent, namespaceImport]⟩

/-- A parser that knows both files, and the first one when it has been migrated. -/
def topLevelParser : Parser := .ofTable [(plainComponent.text, plainComponentTree),
  (namespaceImport.text, namespaceImportTree), (migratedComponent, migratedComponentTree)]

theorem treeOf_plainComponent :
    plainComponent.treeOf topLevelParser plainComponent.text = ⟨plainComponentTree, false⟩ := by
  rw [SourceUnit.treeOf, topLevelParser, Parser.ofTable_cons_self]

theorem treeOf_migratedComponent :
    plainComponent.treeOf topLevelParser migratedComponent = ⟨migratedComponentTree, false⟩ := by
  have hne : migratedComponent ≠ plainComponent.text := by decide +kernel
  have hne' : migratedComponent ≠ namespaceImport.text := by decide +kernel
  rw [SourceUnit.treeOf, topLevelParser, Parser.ofTable_cons_of_ne hne, Parser.ofTable_cons_of_ne hne',
    Parser.ofTable_cons_self]

theorem treeOf_namespaceImport :
    namespaceImport.treeOf topLevelParser namespaceImport.text = ⟨namespaceImportTree, false⟩ := by
  have hne : namespaceImport.text ≠ plainComponent.text := by decide +kernel
  rw [SourceUnit.treeOf, topLevelParser, Parser.ofTable_cons_of_ne hne, Parser.ofTable_cons_self]

def namespaceImportFile : ParsedFile where
  unit := namespaceImport
  root := namespaceImportTree
  isReadFrom := SourceUnit.isReadFrom_of String.toList_ofList (by decide +kernel)

theorem topLevelProject_isParsed : topLevelProject.IsParsed topLevelParser := by
  refine Project.isParsed_of ?_
  intro u hu
  obtain rfl | rfl : u = plainComponent ∨ u = namespaceImport := by simpa [topLevelProject] using hu
  · have hread : plainComponent.IsReadFrom ⟨plainComponentTree, false⟩ := plainComponentFile.isReadFrom
    rw [← treeOf_plainComponent] at hread
    exact hread
  · have hread : namespaceImport.IsReadFrom ⟨namespaceImportTree, false⟩ := namespaceImportFile.isReadFrom
    rw [← treeOf_namespaceImport] at hread
    exact hread

theorem namespaceImport_cannotBind : ∀ i ∈ topLevelImports namespaceImport.text.toList namespaceImportTree,
    i.moduleName = "@angular/core" → i.canBind "inject" = false := by
  rw [show namespaceImport.text.toList = _ from String.toList_ofList]
  decide +kernel

/-- The only import statement of a file stands at its top level. -/
theorem importsAtTop_of_singleton {r : Request} {source : List Char} {root n : SyntaxNode} (hn : n ∈ root.children)
    (hall : importStatements root = [n]) : ImportsAtTop r source root := by
  intro m hm i hi _
  obtain ⟨module, himport, -⟩ := readImport?_eq_some hi
  have hmem : m ∈ importStatements root := List.mem_filter.mpr ⟨hm, by simp [himport.kind]⟩
  rw [hall, List.mem_singleton] at hmem
  exact hmem ▸ hn

/-- One file is given the accessor at its top level, and the other one cannot be given it. -/
theorem accessor_bound_in_scope_namespace :
    let r := Request.forRoot ⟨"/p"⟩
    let parse := topLevelParser
    ∃ plan, (planProject r topLevelProject).answer = .ok plan ∧ topLevelProject.HasDistinctPaths ∧
      topLevelProject.IsParsed parse ∧ plainComponent ∈ topLevelProject.units ∧ namespaceImport ∈ topLevelProject.units ∧
      ImportsAtTop r plainComponent.text.toList plainComponentTree ∧
      ImportsAtTop r namespaceImport.text.toList namespaceImportTree ∧
      modifiedClasses r topLevelProject plainComponent = plainComponent.classes ∧
      plan.log.apply plainComponent.path plainComponent.text = .ok migratedComponent ∧
      (∃ i ∈ topLevelImports migratedComponent.toList migratedComponentTree,
        i.moduleName = r.accessorModule ∧ i.binds r.accessorFunction = true) ∧
      ∃ reason, plan.failures.filter (fun f => f.file.same namespaceImport.path) =
        [⟨⟨"/p/b.ts"⟩, "BComponent", .missingImportSurface, reason⟩] := by
  intro r parse
  have hdistinct : topLevelProject.HasDistinctPaths := by
    unfold Project.HasDistinctPaths
    decide +kernel
  have hparsed := topLevelProject_isParsed
  have hplain : plainComponent ∈ topLevelProject.units := List.mem_cons_self
  have hwhole : namespaceImport ∈ topLevelProject.units := List.mem_cons_of_mem _ List.mem_cons_self
  obtain ⟨plan, hplan, rfl⟩ := exists_plan (r := r) (by decide +kernel) topLevelProject
  have htop : ImportsAtTop r plainComponent.text.toList plainComponentTree :=
    importsAtTop_of_singleton List.mem_cons_self rfl
  have htop' : ImportsAtTop r namespaceImport.text.toList namespaceImportTree :=
    importsAtTop_of_singleton List.mem_cons_self rfl
  have hfree : ¬ IsEntangled r topLevelProject (.ofClasses r (selectedClasses r topLevelProject.units))
      plainComponent := by
    decide +kernel
  obtain ⟨hedits, hmodified⟩ : (Plan.ofClasses r (selectedClasses r topLevelProject.units)).importEdits r
      plainComponent = [componentEdit] ∧ modifiedClasses r topLevelProject plainComponent = plainComponent.classes := by
    decide +kernel
  have happly : (Plan.ofClasses r (selectedClasses r topLevelProject.units)).log.apply plainComponent.path
      plainComponent.text = .ok migratedComponent := by
    rw [apply_of_not_isEntangled hplan hdistinct hparsed.ownsClasses hplain plainComponentFile.isReadFrom hfree, hedits,
      hmodified, migratedText_plainComponent]
  refine ⟨_, hplan, hdistinct, hparsed, hplain, hwhole, htop, htop', hmodified, happly, ?_, ?_⟩
  · have hscope := (accessor_bound_in_scope hplan hdistinct hparsed hplain
      (treeOf_plainComponent ▸ htop)).1 migratedComponent happly (by rw [hmodified]; exact List.cons_ne_nil _ _)
    rw [treeOf_plainComponent, treeOf_migratedComponent, hedits] at hscope
    refine hscope fun n hn _ => ?_
    obtain rfl : n = componentImport := List.mem_singleton.mp hn
    exact componentImport_differs
  · obtain ⟨reason, hfailures⟩ := (accessor_bound_in_scope hplan hdistinct hparsed hwhole
      (treeOf_namespaceImport ▸ htop')).2 (treeOf_namespaceImport ▸ namespaceImport_cannotBind)
    have hselected : ((selectedIn r namespaceImport).filter fun c => !c.parameters.isEmpty).map
        (fun c => (c.file, c.name)) = [(⟨"/p/b.ts"⟩, "BComponent")] := by
      decide +kernel
    have hfailure := congrArg (List.map fun x => ClassFailure.mk x.1 x.2 .missingImportSurface reason) hselected
    rw [List.map_map] at hfailure
    exact ⟨reason, hfailures.trans hfailure⟩

/-- A file that imports from the accessor's module only inside a module that is declared in it. -/
def ambientImport : SourceUnit where
  path := ⟨"/p/a.ts"⟩
  relativePath := ⟨"a.ts"⟩
  text := "declare module 'x' \x7b\n  import \x7b C \x7d from '@angular/core';\n\x7d\n" ++
    "class AComponent \x7b\n  constructor(a: A) \x7b\x7d\n\x7d\n"
  classes := [⟨"AComponent", ⟨"/p/a.ts"⟩, ⟨60, 103⟩, 78, "  ", true, .lf,
    some ⟨[⟨"a", .identifier, some "A", false, false, none, [], ⟨93, 97⟩⟩], ⟨93, 97⟩, 0⟩⟩]
  imports := [⟨"@angular/core", ["C"], [], false, ⟨23, 57⟩, .afterLastSpecifier 33⟩]
  hasSyntaxErrors := false

/-- The text of that file when it has been migrated. -/
def migratedAmbient : String :=
  "declare module 'x' \x7b\n  import \x7b C, inject \x7d from '@angular/core';\n\x7d\n" ++
    "class AComponent \x7b\n  a: A = inject(A);\n\n  constructor() \x7b\x7d\n\x7d\n"

def ambientProject : Project := ⟨⟨"/p"⟩, [ambientImport]⟩

def ambientImportTree : SyntaxNode :=
  .rule "program" none 0 104 [
    .rule "ambient_declaration" none 0 59 [
      .token "declare" 0,
      .rule "module" none 8 59 [
        .token "module" 8,
        .rule "string" (some "name") 15 18 [.token "'" 15, .rule "string_fragment" none 16 17 [], .token "'" 17],
        .rule "statement_block" (some "body") 19 59 [
          .token "\x7b" 19,
          .rule "import_statement" none 23 57 [
            .token "import" 23,
            .rule "import_clause" none 30 35 [
              .rule "named_imports" none 30 35 [
                .token "\x7b" 30, .rule "import_specifier" none 32 33 [.rule "identifier" (some "name") 32 33 []],
                .token "\x7d" 34]],
            .token "from" 36,
            .rule "string" (some "source") 41 56 [.token "'" 41, .rule "string_fragment" none 42 55 [], .token "'" 55],
            .token ";" 56],
          .token "\x7d" 58]]],
    .rule "class_declaration" none 60 103 [
      .token "class" 60, .rule "type_identifier" (some "name") 66 76 [],
      .rule "class_body" (some "body") 77 103 [
        .token "\x7b" 77,
        .rule "method_definition" none 81 101 [
          .rule "property_identifier" (some "name") 81 92 [],
          .rule "formal_parameters" (some "parameters") 92 98 [
            .token "(" 92,
            .rule "required_parameter" none 93 97 [
              .rule "identifier" (some "pattern") 93 94 [],
              .rule "type_annotation" (some "type") 94 97 [.token ":" 94, .rule "type_identifier" none 96 97 []]],
            .token ")" 97],
          .rule "statement_block" (some "body") 99 101 [.token "\x7b" 99, .token "\x7d" 100]],
        .token "\x7d" 102]]]

def migratedAmbientTree : SyntaxNode :=
  .rule "program" none 0 129 [
    .rule "ambient_declaration" none 0 67 [
      .token "declare" 0,
      .rule "module" none 8 67 [
        .token "module" 8,
        .rule "string" (some "name") 15 18 [.token "'" 15, .rule "string_fragment" none 16 17 [], .token "'" 17],
        .rule "statement_block" (some "body") 19 67 [
          .token "\x7b" 19,
          .rule "import_statement" none 23 65 [
            .token "import" 23,
            .rule "import_clause" none 30 43 [
              .rule "named_imports" none 30 43 [
                .token "\x7b" 30, .rule "import_specifier" none 32 33 [.rule "identifier" (some "name") 32 33 []],
                .token "," 33, .rule "import_specifier" none 35 41 [.rule "identifier" (some "name") 35 41 []],
                .token "\x7d" 42]],
            .token "from" 44,
            .rule "string" (some "source") 49 64 [.token "'" 49, .rule "string_fragment" none 50 63 [], .token "'" 63],
            .token ";" 64],
          .token "\x7d" 66]]],
    .rule "class_declaration" none 68 128 [
      .token "class" 68, .rule "type_identifier" (some "name") 74 84 [],
      .rule "class_body" (some "body") 85 128 [
        .token "\x7b" 85,
        .rule "public_field_definition" none 89 105 [
          .rule "property_identifier" (some "name") 89 90 [],
          .rule "type_annotation" (some "type") 90 93 [.token ":" 90, .rule "type_identifier" none 92 93 []],
          .token "=" 94,
          .rule "call_expression" (some "value") 96 105 [
            .rule "identifier" (some "function") 96 102 [],
            .rule "arguments" (some "arguments") 102 105 [
              .token "(" 102, .rule "identifier" none 103 104 [], .token ")" 104]]],
        .token ";" 105,
        .rule "method_definition" none 110 126 [
          .rule "property_identifier" (some "name") 110 121 [],
          .rule "formal_parameters" (some "parameters") 121 123 [.token "(" 121, .token ")" 122],
          .rule "statement_block" (some "body") 124 126 [.token "\x7b" 124, .token "\x7d" 125]],
        .token "\x7d" 127]]]

def ambientParser : Parser :=
  .ofTable [(ambientImport.text, ambientImportTree), (migratedAmbient, migratedAmbientTree)]

theorem treeOf_ambientImport : ambientImport.treeOf ambientParser ambientImport.text = ⟨ambientImportTree, false⟩ := by
  rw [SourceUnit.treeOf, ambientParser, Parser.ofTable_cons_self]

theorem treeOf_migratedAmbient :
    ambientImport.treeOf ambientParser migratedAmbient = ⟨migratedAmbientTree, false⟩ := by
  have hne : migratedAmbient ≠ ambientImport.text := by decide +kernel
  rw [SourceUnit.treeOf, ambientParser, Parser.ofTable_cons_of_ne hne, Parser.ofTable_cons_self]

def ambientImportFile : ParsedFile where
  unit := ambientImport
  root := ambientImportTree
  isReadFrom := SourceUnit.isReadFrom_of (toList_append_ofList String.toList_ofList) (by decide +kernel)

set_option maxRecDepth 1024 in
/-- The tree of the migrated file is one that a parser may give, and nothing is imported at its top level. -/
theorem migratedAmbientTree_spec :
    migratedAmbientTree.ArePlaced migratedAmbient.toList ∧ migratedAmbientTree.AreShaped ∧
      topLevelImports migratedAmbient.toList migratedAmbientTree = [] := by
  rw [show migratedAmbient.toList = _ from toList_append_ofList String.toList_ofList]
  decide +kernel

theorem migratedText_ambientImport :
    migratedText (.forRoot ⟨"/p"⟩) [.insert 33 ", inject"] ambientImport.classes ambientImport.text = migratedAmbient := by
  rw [migratedText, show ambientImport.text.toList = _ from toList_append_ofList String.toList_ofList]
  decide +kernel

/-- The class is migrated, and no import statement at the top level of its file binds the accessor. -/
theorem accessor_bound_out_of_scope :
    let r := Request.forRoot ⟨"/p"⟩
    let u := ambientImport
    let parse := ambientParser
    parse.PlacesNodes ∧ parse.FollowsGrammar ∧ ambientProject.HasDistinctPaths ∧ ambientProject.IsParsed parse ∧
      u ∈ ambientProject.units ∧ u.hasSyntaxErrors = false ∧ modifiedClasses r ambientProject u = u.classes ∧
      ∃ plan, (planProject r ambientProject).answer = .ok plan ∧ plan.failures = [] ∧
        ∃ after, plan.log.apply u.path u.text = .ok after ∧ (u.treeOf parse after).hasError = false ∧
          ∀ i ∈ topLevelImports after.toList (u.treeOf parse after).root,
            ¬ (i.moduleName = r.accessorModule ∧ i.binds r.accessorFunction = true) := by
  intro r u parse
  have hdistinct : ambientProject.HasDistinctPaths := List.pairwise_singleton _ _
  have hread : u.IsReadFrom ⟨ambientImportTree, false⟩ := ambientImportFile.isReadFrom
  have hparsed : ambientProject.IsParsed parse := by
    refine Project.isParsed_of fun v hv => ?_
    obtain rfl := List.mem_singleton.mp hv
    rw [← treeOf_ambientImport] at hread
    exact hread
  have hu : u ∈ ambientProject.units := List.mem_singleton.mpr rfl
  obtain ⟨plan, hplan, rfl⟩ := exists_plan (r := r) (by decide +kernel) ambientProject
  have hfree : ¬ IsEntangled r ambientProject (.ofClasses r (selectedClasses r ambientProject.units)) u := by
    decide +kernel
  obtain ⟨hedits, hmodified⟩ : (Plan.ofClasses r (selectedClasses r ambientProject.units)).importEdits r u =
      [.insert 33 ", inject"] ∧ modifiedClasses r ambientProject u = u.classes := by
    decide +kernel
  have happly : (Plan.ofClasses r (selectedClasses r ambientProject.units)).log.apply u.path u.text =
      .ok migratedAmbient := by
    rw [apply_of_not_isEntangled hplan hdistinct hparsed.ownsClasses hu hread hfree, hedits, hmodified,
      migratedText_ambientImport]
  obtain ⟨hplaced, hshaped, hnone⟩ := migratedAmbientTree_spec
  refine ⟨Parser.ofTable_placesNodes ?_, Parser.ofTable_followsGrammar ?_, hdistinct, hparsed, hu, rfl, hmodified, _, hplan,
    by decide +kernel, migratedAmbient, happly, ?_, ?_⟩
  · exact List.forall_mem_cons.mpr ⟨hread.placed, List.forall_mem_singleton.mpr hplaced⟩
  · exact List.forall_mem_cons.mpr ⟨hread.shaped, List.forall_mem_singleton.mpr hshaped⟩
  · rw [treeOf_migratedAmbient]
  · rw [treeOf_migratedAmbient, hnone]
    exact List.forall_mem_nil _

end FieldInjection
