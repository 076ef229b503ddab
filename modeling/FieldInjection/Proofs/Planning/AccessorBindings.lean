import FieldInjection.Proofs.Planning.Conflict
import FieldInjection.Proofs.Planning.ImportAccount
import FieldInjection.Proofs.TypeScript.ImportedNames
import Mathlib.Data.List.Flatten
import Mathlib.Data.List.Perm.Subperm

/-!
# How often a file binds the accessor

A plan adds the accessor to one import statement of a file at most, and only if none of its module's statements lists
it. So a file that binds the accessor once at most does so when it has been migrated, as long as the binding stands
where it is looked for: in the lists of the statements of its module (`accessor_bound_at_most_once`). Statements of
other modules are not looked at (`foreign_accessor_bound_twice`).
-/

namespace FieldInjection

open TypeScript

/-- Import statements of a text and of the one that came of it by an edit of one of them: this one has become what the
grammar makes of it, and the others read alike. -/
def DifferByEdit (source source' : List Char) (name : String) (e : TextEdit) (statement : SyntaxNode) :
    List SyntaxNode → List SyntaxNode → Prop :=
  SyntaxNode.DifferInOne (SyntaxNode.IsAlike source source')
    (fun n n' => n = statement ∧ FollowsEdit source source' name e n n')

/-- What a parser makes of import statements: they read alike if none of them is edited, and differ by the edit if it is
written into one of them. -/
def StatementsAgree (source source' : List Char) (name : String) :
    Option TextEdit → List SyntaxNode → List SyntaxNode → Prop
  | none, ns, ns' => List.Forall₂ (SyntaxNode.IsAlike source source') ns ns'
  | some e, ns, ns' => ∀ n ∈ ns, IsWrittenIn source name n e → DifferByEdit source source' name e n ns ns'

/-- The import statements of a text that came of another one are statements of that one, each once at most, of which one
may be edited. (A statement may go with a parameter in which it stands, and may stand in a field then.) -/
def KeepsStatements (source source' : List Char) (name : String) : Option TextEdit → SyntaxNode → SyntaxNode → Prop
  | none, root, root' => ∃ ns, ns.Subperm (importStatements root) ∧
      List.Forall₂ (SyntaxNode.IsAlike source source') ns (importStatements root')
  | some e, root, root' => ∀ n ∈ importStatements root, IsWrittenIn source name n e →
      ∃ ns, ns.Subperm (importStatements root) ∧ DifferByEdit source source' name e n ns (importStatements root')

section
variable {source source' : List Char} {name : String} {e : TextEdit} {n : SyntaxNode} {ns ns' : List SyntaxNode}

theorem flatMap_names_alike (h : List.Forall₂ (SyntaxNode.IsAlike source source') ns ns') :
    ns'.flatMap (statementNames source') = ns.flatMap (statementNames source) :=
  (flatMap_eq_of_forall₂ h fun _ _ hn => statementNames_alike hn).symm

/-- Statements to one of which a name is added bind this name as well. -/
theorem flatMap_names_amended (h : DifferByEdit source source' name e n ns ns') :
    (ns'.flatMap (statementNames source')).Perm
      ((if e.replacement = "" then [] else [name]) ++ ns.flatMap (statementNames source)) := by
  obtain ⟨before, _, after, before', n', after', rfl, rfl, hbefore, ⟨rfl, hfollows⟩, hafter⟩ := h
  simp only [List.flatMap_append, List.flatMap_cons, flatMap_names_alike hbefore, flatMap_names_alike hafter]
  unfold FollowsEdit at hfollows
  split at hfollows
  · rw [statementNames_takesKeyword hfollows]
    simp_all
  · have hnames := (statementNames_addsName hfollows).append_right (after.flatMap (statementNames source))
    have hthrough := (hnames.append_left (before.flatMap (statementNames source))).trans List.perm_middle
    simpa [*] using hthrough

theorem flatMap_names_subperm {ms : List SyntaxNode} (h : ns.Subperm ms) :
    (ns.flatMap (statementNames source)).Subperm (ms.flatMap (statementNames source)) := by
  obtain ⟨l, hperm, hsub⟩ := h
  exact ⟨l.flatMap (statementNames source), hperm.flatMap_right _, hsub.flatMap _⟩

end

/-- The accessor is looked for where it is bound: if a file binds its name, then in the list of a statement of its
module, or else the name cannot be added to the file. -/
def SourceUnit.ListsAccessor (u : SourceUnit) (r : Request) (root : SyntaxNode) : Prop :=
  r.accessorFunction ∈ importedNames u.text.toList root →
    (∃ i ∈ u.importsFrom r.accessorModule, i.binds r.accessorFunction = true ∨
      i.bindsTypeOnly r.accessorFunction = true) ∨
    ∃ obstacle, ImportSurface.amend r.accessorFunction (u.importsFrom r.accessorModule) = .error obstacle

/-- The tree that the parser gives of a text that came of a file. -/
def SourceUnit.treeOf (u : SourceUnit) (parse : Parser) (text : String) : SyntaxTree := parse (grammarOf u.path) text

section
variable {parse : Parser} {r : Request} {p : Project} {u : SourceUnit} {root root' : SyntaxNode}

/-! ## Files that are given the accessor -/

/-- The accessor is added only where no statement lists it, so that it is not bound at all. -/
theorem not_bound_of_importEdit {e : PlannedEdit} (he : e ∈ importEdits r u) (hadds : e.edit.replacement ≠ "")
    (hlists : u.ListsAccessor r root) : r.accessorFunction ∉ importedNames u.text.toList root := by
  have hvalue : bindsAccessor r u = false := by
    refine Bool.eq_false_iff.mpr fun hbinds => List.ne_nil_of_mem he ?_
    exact (importEdits_eq_nil_iff (surfaceEdits_ok_of_importEdits_ne_nil (List.ne_nil_of_mem he))).mpr hbinds
  obtain ⟨-, -, hamend⟩ := mem_importEdits he
  have htypes : ∀ i ∈ u.importsFrom r.accessorModule, i.bindsTypeOnly r.accessorFunction = false := by
    obtain ⟨i, -, -, ⟨s, -, -, hdelete⟩ | ⟨-, hnone⟩⟩ := ImportSurface.amend_eq_ok hamend
    · rw [hdelete] at hadds
      exact absurd rfl hadds
    · exact hnone
  intro hbound
  rcases hlists hbound with ⟨i, hi, hbinds | htype⟩ | ⟨obstacle, herror⟩
  · have hany : bindsAccessor r u = true := List.any_eq_true.mpr ⟨i, hi, hbinds⟩
    rw [hvalue] at hany
    cases hany
  · rw [htypes i hi] at htype
    cases htype
  · rw [hamend] at herror
    cases herror

/-- The import edit of a file is written into one of its statements. -/
theorem exists_isAmendedBy_of_importEdit (hparsed : p.IsParsed parse) (hu : u ∈ p.units) {e : PlannedEdit}
    (he : e ∈ importEdits r u) : ∃ n ∈ importStatements (u.treeOf parse u.text).root,
      IsAmendedBy u.text.toList r.accessorModule r.accessorFunction e.edit n := by
  obtain ⟨-, -, hamend⟩ := mem_importEdits he
  obtain ⟨path, relativePath, text, rfl⟩ := hparsed u hu
  exact exists_isAmendedBy hamend

/-- The edits of a plan add no second binding of the accessor. -/
theorem count_importedNames_le [GlobReader] {plan : Plan} (hplan : (planProject r p).answer = .ok plan)
    (hdistinct : p.HasDistinctPaths) (hparsed : p.IsParsed parse) (hu : u ∈ p.units)
    (hlists : u.ListsAccessor r (u.treeOf parse u.text).root)
    (honce : (importedNames u.text.toList (u.treeOf parse u.text).root).count r.accessorFunction ≤ 1)
    {source' : List Char}
    (hkeeps : KeepsStatements u.text.toList source' r.accessorFunction (plan.importEdits r u).head?
      (u.treeOf parse u.text).root root') : (importedNames source' root').count r.accessorFunction ≤ 1 := by
  obtain ⟨-, rfl⟩ := planProject_eq_ok_iff.mp hplan
  rw [importEdits_plan hdistinct hu] at hkeeps
  -- the statements that are kept bind the name no more often than all
  have hkept : ∀ ns : List SyntaxNode, ns.Subperm (importStatements (u.treeOf parse u.text).root) →
      (ns.flatMap (statementNames u.text.toList)).count r.accessorFunction ≤
        (importedNames u.text.toList (u.treeOf parse u.text).root).count r.accessorFunction :=
    fun ns hsub => List.Subperm.count_le (flatMap_names_subperm hsub) _
  rcases importEditsTaken_cases (r := r) (u := u) (selectedIn r u) with htaken | ⟨e, he, htaken⟩
  · rw [htaken] at hkeeps
    obtain ⟨ns, hsub, halike⟩ := hkeeps
    rw [importedNames, flatMap_names_alike halike]
    exact Nat.le_trans (hkept ns hsub) honce
  · rw [htaken] at hkeeps
    obtain ⟨n, hn, hamended⟩ := exists_isAmendedBy_of_importEdit hparsed hu he
    obtain ⟨ns, hsub, hdiffer⟩ := hkeeps n hn (isWrittenIn_of_isAmendedBy hamended)
    have hcount := (flatMap_names_amended hdiffer).count_eq r.accessorFunction
    have hle := hkept ns hsub
    rw [importedNames, hcount, List.count_append]
    by_cases hadds : e.edit.replacement = ""
    · simp only [hadds, if_true, List.count_nil]
      omega
    · have hzero := List.count_eq_zero.mpr (not_bound_of_importEdit he hadds hlists)
      simp only [hadds, if_false, List.count_singleton_self]
      omega

/-! ## Files that cannot be given the accessor -/

/-- Where the accessor is bound, but neither as a value nor with a keyword of its own, no file can be given it. -/
theorem surfaceEdits_of_typeOnly (hlists : u.ListsAccessor r root)
    (hbound : r.accessorFunction ∈ importedNames u.text.toList root)
    (hnone : ∀ i ∈ u.importsFrom r.accessorModule,
      i.binds r.accessorFunction = false ∧ i.inlineType? r.accessorFunction = none) :
    ∃ refusal, surfaceEdits r u = .error refusal := by
  have hvalue : bindsAccessor r u = false := by
    refine List.any_eq_false.mpr fun i hi => ?_
    rw [(hnone i hi).1]
    exact Bool.false_ne_true
  have hinline : ((u.importsFrom r.accessorModule).findSome? fun i => i.inlineType? r.accessorFunction) = none :=
    List.findSome?_eq_none_iff.mpr fun i hi => (hnone i hi).2
  obtain ⟨obstacle, herror⟩ : ∃ obstacle,
      ImportSurface.amend r.accessorFunction (u.importsFrom r.accessorModule) = .error obstacle := by
    rcases hlists hbound with ⟨i, hi, hbinds | htype⟩ | hobstacle
    · rw [(hnone i hi).1] at hbinds
      cases hbinds
    · -- it is listed as a type, and no keyword of its own can be taken away
      cases himports : u.importsFrom r.accessorModule with
      | nil => exact ⟨_, rfl⟩
      | cons first others =>
        rw [himports] at hi hinline
        have hany : ((first :: others).any fun i => i.bindsTypeOnly r.accessorFunction) = true :=
          List.any_eq_true.mpr ⟨i, hi, htype⟩
        refine ⟨.importedAsType r.accessorFunction, ?_⟩
        rw [ImportSurface.amend, hinline]
        simp only [hany, if_true]
    · exact hobstacle
  exact ⟨_, by rw [surfaceEdits, hvalue, herror]; rfl⟩

/-- A file whose import surface is refused has no edits. -/
theorem fileEdits_of_surface_refused {refusal : Refusal} (hs : surfaceEdits r u = .error refusal)
    (cs : List ClassDecl) : fileEdits r u cs = [] := by
  have hnone : migratedAmong r u cs = [] := by
    refine List.filter_eq_nil_iff.mpr fun c _ => ?_
    unfold fateOf
    rw [hs]
    by_cases hp : c.parameters.isEmpty = true <;> simp [hp]
  rw [fileEdits, editsBehind, hnone]
  rfl

/-- A file whose import surface is refused has no edits, and its classes are refused for it. -/
theorem plan_of_surface_refused [GlobReader] {plan : Plan} (hplan : (planProject r p).answer = .ok plan)
    (hdistinct : p.HasDistinctPaths) (howns : ∀ v ∈ p.units, v.OwnsClasses) (hu : u ∈ p.units) {refusal : Refusal}
    (hs : surfaceEdits r u = .error refusal) :
    (∃ reason, plan.failures.filter (fun f => f.file.same u.path) =
      ((selectedIn r u).filter fun c => !c.parameters.isEmpty).map fun c =>
        ⟨c.file, c.name, .missingImportSurface, reason⟩) ∧ plan.log.apply u.path u.text = .ok u.text := by
  obtain ⟨-, rfl⟩ := planProject_eq_ok_iff.mp hplan
  constructor
  · refine ⟨refusal.message, ?_⟩
    rw [filter_failures_plan hdistinct howns hu, failuresAmong_of_surface_refused hs]
    simp [ClassFailure.ofRefusal, surfaceEdits_error_kind hs]
  · rw [EditLog.apply, forFile_plan hdistinct howns hu, fileEdits_of_surface_refused hs]
    simp [applyEdits, applyOrdered, Except.map]

/-- **The accessor is bound once at most.** Take a file whose import statements bind the accessor's name once at most,
and if so in the list of a statement of its module, or else so that the name cannot be added. As long as the parser
finds the statements of the file in the text to which the edits of a plan lead, and no others, they bind the name
there once at most. If it is bound, but neither as a value nor with a keyword `type` of its own, all classes of the
file with parameters are refused for the import surface, and the file stays as it was.
-/
theorem accessor_bound_at_most_once [GlobReader] {plan : Plan} (hplan : (planProject r p).answer = .ok plan)
    (hdistinct : p.HasDistinctPaths) (hparsed : p.IsParsed parse) (hu : u ∈ p.units)
    (hlists : u.ListsAccessor r (u.treeOf parse u.text).root)
    (honce : (importedNames u.text.toList (u.treeOf parse u.text).root).count r.accessorFunction ≤ 1) :
    (∀ after, plan.log.apply u.path u.text = .ok after →
      KeepsStatements u.text.toList after.toList r.accessorFunction (plan.importEdits r u).head?
        (u.treeOf parse u.text).root (u.treeOf parse after).root →
      (importedNames after.toList (u.treeOf parse after).root).count r.accessorFunction ≤ 1) ∧
    (r.accessorFunction ∈ importedNames u.text.toList (u.treeOf parse u.text).root →
      (∀ i ∈ u.importsFrom r.accessorModule,
        i.binds r.accessorFunction = false ∧ i.inlineType? r.accessorFunction = none) →
      (∃ reason, plan.failures.filter (fun f => f.file.same u.path) =
        ((selectedIn r u).filter fun c => !c.parameters.isEmpty).map fun c =>
          ⟨c.file, c.name, .missingImportSurface, reason⟩) ∧ plan.log.apply u.path u.text = .ok u.text) := by
  constructor
  · intro after _ hkeeps
    exact count_importedNames_le hplan hdistinct hparsed hu hlists honce hkeeps
  · intro hbound hnone
    obtain ⟨refusal, hs⟩ := surfaceEdits_of_typeOnly hlists hbound hnone
    exact plan_of_surface_refused hplan hdistinct hparsed.ownsClasses hu hs

end

/-! ## Files that import from the module -/

/-- A file with one class. -/
def plainComponent : SourceUnit where
  path := ⟨"/p/a.ts"⟩
  relativePath := ⟨"a.ts"⟩
  text := "import \x7b C \x7d from '@angular/core';\nclass AComponent \x7b constructor(a: A) \x7b\x7d \x7d\n"
  classes := [⟨"AComponent", ⟨"/p/a.ts"⟩, ⟨35, 76⟩, 53, "    ", true, .lf,
    some ⟨[⟨"a", .identifier, some "A", false, false, none, [], ⟨66, 70⟩⟩], ⟨66, 70⟩, 0⟩⟩]
  imports := [⟨"@angular/core", ["C"], [], false, ⟨0, 34⟩, .afterLastSpecifier 10⟩]
  hasSyntaxErrors := false

/-- The text of that file when it has been migrated. -/
def migratedComponent : String :=
  "import \x7b C, inject \x7d from '@angular/core';\n" ++
    "class AComponent \x7b\n    a: A = inject(A);\n constructor() \x7b\x7d \x7d\n"

/-- The list of names in that file. -/
def componentNames : SyntaxNode :=
  .rule "named_imports" none 7 12 [
    .token "\x7b" 7, .rule "import_specifier" none 9 10 [.rule "identifier" (some "name") 9 10 []], .token "\x7d" 11]

/-- The name of the accessor behind that name. -/
def accessorName : SyntaxNode := .rule "import_specifier" none 12 18 [.rule "identifier" (some "name") 12 18 []]

/-- The list with the accessor. -/
def accessorNames : SyntaxNode :=
  .rule "named_imports" none 7 20 [
    .token "\x7b" 7, .rule "import_specifier" none 9 10 [.rule "identifier" (some "name") 9 10 []],
    .token "," 10, accessorName, .token "\x7d" 19]

def componentImport : SyntaxNode :=
  .rule "import_statement" none 0 34 [
    .token "import" 0, .rule "import_clause" none 7 12 [componentNames], .token "from" 13,
    .rule "string" (some "source") 18 33 [.token "'" 18, .rule "string_fragment" none 19 32 [], .token "'" 32],
    .token ";" 33]

def accessorImport : SyntaxNode :=
  .rule "import_statement" none 0 42 [
    .token "import" 0, .rule "import_clause" none 7 20 [accessorNames], .token "from" 21,
    .rule "string" (some "source") 26 41 [.token "'" 26, .rule "string_fragment" none 27 40 [], .token "'" 40],
    .token ";" 41]

def plainComponentTree : SyntaxNode :=
  .rule "program" none 0 77 [
    componentImport,
    .rule "class_declaration" none 35 76 [
      .token "class" 35, .rule "type_identifier" (some "name") 41 51 [],
      .rule "class_body" (some "body") 52 76 [
        .token "\x7b" 52,
        .rule "method_definition" none 54 74 [
          .rule "property_identifier" (some "name") 54 65 [],
          .rule "formal_parameters" (some "parameters") 65 71 [
            .token "(" 65,
            .rule "required_parameter" none 66 70 [
              .rule "identifier" (some "pattern") 66 67 [],
              .rule "type_annotation" (some "type") 67 70 [.token ":" 67, .rule "type_identifier" none 69 70 []]],
            .token ")" 70],
          .rule "statement_block" (some "body") 72 74 [.token "\x7b" 72, .token "\x7d" 73]],
        .token "\x7d" 75]]]

def migratedComponentTree : SyntaxNode :=
  .rule "program" none 0 104 [
    accessorImport,
    .rule "class_declaration" none 43 103 [
      .token "class" 43, .rule "type_identifier" (some "name") 49 59 [],
      .rule "class_body" (some "body") 60 103 [
        .token "\x7b" 60,
        .rule "public_field_definition" none 66 82 [
          .rule "property_identifier" (some "name") 66 67 [],
          .rule "type_annotation" (some "type") 67 70 [.token ":" 67, .rule "type_identifier" none 69 70 []],
          .token "=" 71,
          .rule "call_expression" (some "value") 73 82 [
            .rule "identifier" (some "function") 73 79 [],
            .rule "arguments" (some "arguments") 79 82 [
              .token "(" 79, .rule "identifier" none 80 81 [], .token ")" 81]]],
        .token ";" 82,
        .rule "method_definition" none 85 101 [
          .rule "property_identifier" (some "name") 85 96 [],
          .rule "formal_parameters" (some "parameters") 96 98 [.token "(" 96, .token ")" 97],
          .rule "statement_block" (some "body") 99 101 [.token "\x7b" 99, .token "\x7d" 100]],
        .token "\x7d" 102]]]

/-- The edit that adds the accessor to that file. -/
def componentEdit : TextEdit := .insert 10 ", inject"

theorem accessorName_isNameOf : IsNameOf migratedComponent.toList "inject" accessorName := by
  refine ⟨rfl, rfl, _, rfl, rfl, rfl, rfl, rfl, ?_⟩
  rw [show migratedComponent.toList = _ from toList_append_ofList String.toList_ofList]
  decide +kernel

theorem componentNames_gainsName :
    GainsName plainComponent.text.toList migratedComponent.toList "inject" componentNames accessorNames := by
  have hadded := accessorName_isNameOf
  rw [show migratedComponent.toList = _ from toList_append_ofList String.toList_ofList] at hadded ⊢
  rw [show plainComponent.text.toList = _ from String.toList_ofList]
  refine .intro (show SyntaxNode.InsertsChildren _ _ (componentNames.children.take 2)
    ([.token "," 10] ++ [accessorName]) (componentNames.children.drop 2) componentNames accessorNames from ?_)
    (by decide +kernel) hadded (by decide +kernel)
  exact @SyntaxNode.insertsChildren_of_take _ _ componentNames accessorNames 2 2 ⟨rfl, rfl, rfl⟩ (by decide +kernel)
    (by decide +kernel)

theorem componentImport_followsEdit :
    FollowsEdit plainComponent.text.toList migratedComponent.toList "inject" componentEdit componentImport
      accessorImport := by
  have hgains := componentNames_gainsName
  rw [show plainComponent.text.toList = _ from String.toList_ofList,
    show migratedComponent.toList = _ from toList_append_ofList String.toList_ofList] at hgains ⊢
  refine followsEdit_of_addsName (by decide) ?_
  refine .intro (SyntaxNode.replacesChild_of_getElem? (k := 1) ⟨rfl, rfl, rfl⟩ rfl rfl (by decide +kernel)
    (by decide +kernel)) rfl rfl rfl (by decide +kernel) (Or.inl ?_)
  exact .intro (SyntaxNode.replacesChild_of_getElem? (k := 0) ⟨rfl, rfl, rfl⟩ rfl rfl (by decide +kernel)
    (by decide +kernel)) rfl rfl (by decide +kernel) hgains

/-- A file that imports the accessor in a statement for types only. -/
def typeImport : SourceUnit where
  path := ⟨"/p/c.ts"⟩
  relativePath := ⟨"c.ts"⟩
  text := "import \x7b C \x7d from '@angular/core';\n" ++
    "import type \x7b inject \x7d from '@angular/core';\n" ++
    "class CComponent \x7b constructor(c: C) \x7b\x7d \x7d\n"
  classes := [⟨"CComponent", ⟨"/p/c.ts"⟩, ⟨80, 121⟩, 98, "    ", true, .lf,
    some ⟨[⟨"c", .identifier, some "C", false, false, none, [], ⟨111, 115⟩⟩], ⟨111, 115⟩, 0⟩⟩]
  imports := [⟨"@angular/core", ["C"], [], false, ⟨0, 34⟩, .afterLastSpecifier 10⟩,
    ⟨"@angular/core", ["inject"], [], true, ⟨35, 79⟩, .afterLastSpecifier 55⟩]
  hasSyntaxErrors := false

def typeImportTree : SyntaxNode :=
  .rule "program" none 0 122 [
    componentImport,
    .rule "import_statement" none 35 79 [
      .token "import" 35, .token "type" 42,
      .rule "import_clause" none 47 57 [
        .rule "named_imports" none 47 57 [
          .token "\x7b" 47, .rule "import_specifier" none 49 55 [.rule "identifier" (some "name") 49 55 []],
          .token "\x7d" 56]],
      .token "from" 58,
      .rule "string" (some "source") 63 78 [.token "'" 63, .rule "string_fragment" none 64 77 [], .token "'" 77],
      .token ";" 78],
    .rule "class_declaration" none 80 121 [
      .token "class" 80, .rule "type_identifier" (some "name") 86 96 [],
      .rule "class_body" (some "body") 97 121 [
        .token "\x7b" 97,
        .rule "method_definition" none 99 119 [
          .rule "property_identifier" (some "name") 99 110 [],
          .rule "formal_parameters" (some "parameters") 110 116 [
            .token "(" 110,
            .rule "required_parameter" none 111 115 [
              .rule "identifier" (some "pattern") 111 112 [],
              .rule "type_annotation" (some "type") 112 115 [.token ":" 112, .rule "type_identifier" none 114 115 []]],
            .token ")" 115],
          .rule "statement_block" (some "body") 117 119 [.token "\x7b" 117, .token "\x7d" 118]],
        .token "\x7d" 120]]]

/-- The project of both files. -/
def importingProject : Project := ⟨⟨"/p"⟩, [plainComponent, typeImport]⟩

/-- A parser that knows both files, and the first one when it has been migrated. -/
def importingParser : Parser := .ofTable [(plainComponent.text, plainComponentTree), (typeImport.text, typeImportTree),
  (migratedComponent, migratedComponentTree)]

def plainComponentFile : ParsedFile where
  unit := plainComponent
  root := plainComponentTree
  isReadFrom := SourceUnit.isReadFrom_of String.toList_ofList (by decide +kernel)

set_option maxRecDepth 1024 in
def typeImportFile : ParsedFile where
  unit := typeImport
  root := typeImportTree
  isReadFrom := SourceUnit.isReadFrom_of (toList_append_ofList (toList_append_ofList String.toList_ofList)) (by decide +kernel)

theorem importingParser_plain (grammar : Grammar) :
    importingParser grammar plainComponent.text = ⟨plainComponentTree, false⟩ :=
  Parser.ofTable_cons_self _ _ _

theorem importingParser_type (grammar : Grammar) :
    importingParser grammar typeImport.text = ⟨typeImportTree, false⟩ :=
  (Parser.ofTable_cons_of_ne (by decide +kernel) _ _).trans (Parser.ofTable_cons_self _ _ _)

theorem importingProject_isParsed : importingProject.IsParsed importingParser := by
  refine Project.isParsed_of ?_
  intro u hu
  obtain rfl | rfl : u = plainComponent ∨ u = typeImport := by simpa [importingProject] using hu
  · rw [importingParser_plain]
    exact plainComponentFile.isReadFrom
  · rw [importingParser_type]
    exact typeImportFile.isReadFrom

/-- The one import statement of the file is the one to which the name is added. -/
theorem componentImport_differs : DifferByEdit plainComponent.text.toList migratedComponent.toList "inject"
    componentEdit componentImport [componentImport] [accessorImport] :=
  ⟨[], componentImport, [], [], accessorImport, [], rfl, rfl, .nil, ⟨rfl, componentImport_followsEdit⟩, .nil⟩

theorem migratedText_plainComponent :
    migratedText (.forRoot ⟨"/p"⟩) [componentEdit] plainComponent.classes plainComponent.text = migratedComponent := by
  rw [migratedText, show plainComponent.text.toList = _ from String.toList_ofList]
  decide +kernel

theorem importedNames_plainComponent : importedNames plainComponent.text.toList plainComponentTree = ["C"] := by
  rw [show plainComponent.text.toList = _ from String.toList_ofList]
  decide +kernel

set_option maxRecDepth 1024 in
theorem importedNames_typeImport : importedNames typeImport.text.toList typeImportTree = ["C", "inject"] := by
  rw [show typeImport.text.toList = _ from toList_append_ofList (toList_append_ofList String.toList_ofList)]
  decide +kernel

/-- One file is given the accessor. The class of the other one, which imports it as a type, is refused. -/
theorem accessor_bound_at_most_once_twoFiles :
    let r := Request.forRoot ⟨"/p"⟩
    let parse := importingParser
    ∃ plan, (planProject r importingProject).answer = .ok plan ∧ importingProject.HasDistinctPaths ∧
      importingProject.IsParsed parse ∧ plainComponent ∈ importingProject.units ∧ typeImport ∈ importingProject.units ∧
      plainComponent.ListsAccessor r plainComponentTree ∧ typeImport.ListsAccessor r typeImportTree ∧
      (importedNames typeImport.text.toList typeImportTree).count r.accessorFunction = 1 ∧
      plan.log.apply plainComponent.path plainComponent.text = .ok migratedComponent ∧
      KeepsStatements plainComponent.text.toList migratedComponent.toList r.accessorFunction
        (plan.importEdits r plainComponent).head? plainComponentTree migratedComponentTree ∧
      (importedNames migratedComponent.toList migratedComponentTree).count r.accessorFunction ≤ 1 ∧
      plan.log.apply typeImport.path typeImport.text = .ok typeImport.text := by
  intro r parse
  have hdistinct : importingProject.HasDistinctPaths := by
    unfold Project.HasDistinctPaths
    decide +kernel
  have hparsed := importingProject_isParsed
  have hplain : plainComponent ∈ importingProject.units := List.mem_cons_self
  have htype : typeImport ∈ importingProject.units := List.mem_cons_of_mem _ List.mem_cons_self
  obtain ⟨plan, hplan, rfl⟩ := exists_plan (r := r) (by decide +kernel) importingProject
  have hfree : ¬ IsEntangled r importingProject (.ofClasses r (selectedClasses r importingProject.units))
      plainComponent := by
    decide +kernel
  obtain ⟨hedits, hmodified⟩ : (Plan.ofClasses r (selectedClasses r importingProject.units)).importEdits r
      plainComponent = [componentEdit] ∧ modifiedClasses r importingProject plainComponent = plainComponent.classes := by
    decide +kernel
  have happly : (Plan.ofClasses r (selectedClasses r importingProject.units)).log.apply plainComponent.path
      plainComponent.text = .ok migratedComponent := by
    rw [apply_of_not_isEntangled hplan hdistinct hparsed.ownsClasses hplain plainComponentFile.isReadFrom hfree, hedits,
      hmodified, migratedText_plainComponent]
  have hkeeps : KeepsStatements plainComponent.text.toList migratedComponent.toList r.accessorFunction
      ((Plan.ofClasses r (selectedClasses r importingProject.units)).importEdits r plainComponent).head?
      plainComponentTree migratedComponentTree := by
    rw [hedits]
    intro n hn _
    obtain rfl : n = componentImport := List.mem_singleton.mp hn
    exact ⟨[componentImport], List.Subperm.refl _, componentImport_differs⟩
  have honce : (importedNames plainComponent.text.toList plainComponentTree).count r.accessorFunction = 0 := by
    rw [importedNames_plainComponent]
    decide
  have hlists : plainComponent.ListsAccessor r plainComponentTree := fun hbound =>
    absurd hbound (List.count_eq_zero.mp honce)
  have hlists' : typeImport.ListsAccessor r typeImportTree := fun _ =>
    Or.inl ⟨⟨"@angular/core", ["inject"], [], true, ⟨35, 79⟩, .afterLastSpecifier 55⟩, by decide +kernel,
      Or.inr (by decide +kernel)⟩
  have hcount : (importedNames typeImport.text.toList typeImportTree).count r.accessorFunction = 1 := by
    rw [importedNames_typeImport]
    decide
  refine ⟨_, hplan, hdistinct, hparsed, hplain, htype, hlists, hlists', hcount, happly, hkeeps, ?_, ?_⟩
  · exact (accessor_bound_at_most_once hplan hdistinct hparsed hplain hlists
      (Nat.le_trans (Nat.le_of_eq honce) (Nat.zero_le 1))).1 _
      happly hkeeps
  · have hbound : r.accessorFunction ∈ importedNames typeImport.text.toList typeImportTree :=
      List.count_pos_iff.mp (Nat.lt_of_lt_of_eq Nat.one_pos hcount.symm)
    exact ((accessor_bound_at_most_once hplan hdistinct hparsed htype hlists' (Nat.le_of_eq hcount)).2 hbound
      (by decide +kernel)).2

/-- A file that binds the accessor's name to something of its own. -/
def foreignAccessor : SourceUnit where
  path := ⟨"/p/a.ts"⟩
  relativePath := ⟨"a.ts"⟩
  text := "import \x7b inject \x7d from './local';\n" ++
    "import \x7b Component \x7d from '@angular/core';\n" ++
    "class AComponent \x7b constructor(a: A) \x7b\x7d \x7d\n"
  classes := [⟨"AComponent", ⟨"/p/a.ts"⟩, ⟨77, 118⟩, 95, "    ", true, .lf,
    some ⟨[⟨"a", .identifier, some "A", false, false, none, [], ⟨108, 112⟩⟩], ⟨108, 112⟩, 0⟩⟩]
  imports := [⟨"./local", ["inject"], [], false, ⟨0, 33⟩, .afterLastSpecifier 15⟩,
    ⟨"@angular/core", ["Component"], [], false, ⟨34, 76⟩, .afterLastSpecifier 52⟩]
  hasSyntaxErrors := false

def foreignProject : Project := ⟨⟨"/p"⟩, [foreignAccessor]⟩

/-- The text of that file when it has been migrated. -/
def migratedForeign : String :=
  "import \x7b inject \x7d from './local';\nimport \x7b Component, inject \x7d from '@angular/core';\n" ++
    "class AComponent \x7b\n    a: A = inject(A);\n constructor() \x7b\x7d \x7d\n"

def foreignAccessorTree : SyntaxNode :=
  .rule "program" none 0 119 [
    .rule "import_statement" none 0 33 [
      .token "import" 0,
      .rule "import_clause" none 7 17 [
        .rule "named_imports" none 7 17 [
          .token "\x7b" 7, .rule "import_specifier" none 9 15 [.rule "identifier" (some "name") 9 15 []],
          .token "\x7d" 16]],
      .token "from" 18,
      .rule "string" (some "source") 23 32 [.token "'" 23, .rule "string_fragment" none 24 31 [], .token "'" 31],
      .token ";" 32],
    .rule "import_statement" none 34 76 [
      .token "import" 34,
      .rule "import_clause" none 41 54 [
        .rule "named_imports" none 41 54 [
          .token "\x7b" 41, .rule "import_specifier" none 43 52 [.rule "identifier" (some "name") 43 52 []],
          .token "\x7d" 53]],
      .token "from" 55,
      .rule "string" (some "source") 60 75 [.token "'" 60, .rule "string_fragment" none 61 74 [], .token "'" 74],
      .token ";" 75],
    .rule "class_declaration" none 77 118 [
      .token "class" 77, .rule "type_identifier" (some "name") 83 93 [],
      .rule "class_body" (some "body") 94 118 [
        .token "\x7b" 94,
        .rule "method_definition" none 96 116 [
          .rule "property_identifier" (some "name") 96 107 [],
          .rule "formal_parameters" (some "parameters") 107 113 [
            .token "(" 107,
            .rule "required_parameter" none 108 112 [
              .rule "identifier" (some "pattern") 108 109 [],
              .rule "type_annotation" (some "type") 109 112 [.token ":" 109, .rule "type_identifier" none 111 112 []]],
            .token ")" 112],
          .rule "statement_block" (some "body") 114 116 [.token "\x7b" 114, .token "\x7d" 115]],
        .token "\x7d" 117]]]

def migratedForeignTree : SyntaxNode :=
  .rule "program" none 0 146 [
    .rule "import_statement" none 0 33 [
      .token "import" 0,
      .rule "import_clause" none 7 17 [
        .rule "named_imports" none 7 17 [
          .token "\x7b" 7, .rule "import_specifier" none 9 15 [.rule "identifier" (some "name") 9 15 []],
          .token "\x7d" 16]],
      .token "from" 18,
      .rule "string" (some "source") 23 32 [.token "'" 23, .rule "string_fragment" none 24 31 [], .token "'" 31],
      .token ";" 32],
    .rule "import_statement" none 34 84 [
      .token "import" 34,
      .rule "import_clause" none 41 62 [
        .rule "named_imports" none 41 62 [
          .token "\x7b" 41, .rule "import_specifier" none 43 52 [.rule "identifier" (some "name") 43 52 []],
          .token "," 52, .rule "import_specifier" none 54 60 [.rule "identifier" (some "name") 54 60 []],
          .token "\x7d" 61]],
      .token "from" 63,
      .rule "string" (some "source") 68 83 [.token "'" 68, .rule "string_fragment" none 69 82 [], .token "'" 82],
      .token ";" 83],
    .rule "class_declaration" none 85 145 [
      .token "class" 85, .rule "type_identifier" (some "name") 91 101 [],
      .rule "class_body" (some "body") 102 145 [
        .token "\x7b" 102,
        .rule "public_field_definition" none 108 124 [
          .rule "property_identifier" (some "name") 108 109 [],
          .rule "type_annotation" (some "type") 109 112 [.token ":" 109, .rule "type_identifier" none 111 112 []],
          .token "=" 113,
          .rule "call_expression" (some "value") 115 124 [
            .rule "identifier" (some "function") 115 121 [],
            .rule "arguments" (some "arguments") 121 124 [
              .token "(" 121, .rule "identifier" none 122 123 [], .token ")" 123]]],
        .token ";" 124,
        .rule "method_definition" none 127 143 [
          .rule "property_identifier" (some "name") 127 138 [],
          .rule "formal_parameters" (some "parameters") 138 140 [.token "(" 138, .token ")" 139],
          .rule "statement_block" (some "body") 141 143 [.token "\x7b" 141, .token "\x7d" 142]],
        .token "\x7d" 144]]]

def foreignParser : Parser :=
  .ofTable [(foreignAccessor.text, foreignAccessorTree), (migratedForeign, migratedForeignTree)]

theorem treeOf_foreignAccessor :
    foreignAccessor.treeOf foreignParser foreignAccessor.text = ⟨foreignAccessorTree, false⟩ := by
  rw [SourceUnit.treeOf, foreignParser, Parser.ofTable_cons_self]

theorem treeOf_migratedForeign :
    foreignAccessor.treeOf foreignParser migratedForeign = ⟨migratedForeignTree, false⟩ := by
  have hne : migratedForeign ≠ foreignAccessor.text := by decide +kernel
  rw [SourceUnit.treeOf, foreignParser, Parser.ofTable_cons_of_ne hne, Parser.ofTable_cons_self]

set_option maxRecDepth 1024 in
def foreignAccessorFile : ParsedFile where
  unit := foreignAccessor
  root := foreignAccessorTree
  isReadFrom := SourceUnit.isReadFrom_of (toList_append_ofList (toList_append_ofList String.toList_ofList)) (by decide +kernel)

set_option maxRecDepth 1024 in
/-- The tree of the migrated file is one that a parser may give, and this is what both files bind. -/
theorem migratedForeignTree_spec :
    migratedForeignTree.ArePlaced migratedForeign.toList ∧ migratedForeignTree.AreShaped ∧
      importedNames foreignAccessor.text.toList foreignAccessorTree = ["inject", "Component"] ∧
      importedNames migratedForeign.toList migratedForeignTree = ["inject", "Component", "inject"] := by
  rw [show foreignAccessor.text.toList = _ from toList_append_ofList (toList_append_ofList String.toList_ofList),
    show migratedForeign.toList = _ from toList_append_ofList String.toList_ofList]
  decide +kernel

set_option maxRecDepth 1024 in
theorem migratedText_foreignAccessor : migratedText (.forRoot ⟨"/p"⟩) [.insert 52 ", inject"] foreignAccessor.classes
    foreignAccessor.text = migratedForeign := by
  rw [migratedText, show foreignAccessor.text.toList = _ from toList_append_ofList (toList_append_ofList String.toList_ofList)]
  decide +kernel

/-- A file that binds the accessor's name to something of its own is given a second binding. -/
theorem foreign_accessor_bound_twice :
    let r := Request.forRoot ⟨"/p"⟩
    let u := foreignAccessor
    let parse := foreignParser
    parse.PlacesNodes ∧ parse.FollowsGrammar ∧ foreignProject.HasDistinctPaths ∧ foreignProject.IsParsed parse ∧
      u ∈ foreignProject.units ∧ u.hasSyntaxErrors = false ∧
      (importedNames u.text.toList (u.treeOf parse u.text).root).count r.accessorFunction = 1 ∧
      ∃ plan, (planProject r foreignProject).answer = .ok plan ∧ plan.failures = [] ∧
        ∃ after, plan.log.apply u.path u.text = .ok after ∧ (u.treeOf parse after).hasError = false ∧
          (importedNames after.toList (u.treeOf parse after).root).count r.accessorFunction = 2 := by
  intro r u parse
  have hdistinct : foreignProject.HasDistinctPaths := List.pairwise_singleton _ _
  have hread : u.IsReadFrom ⟨foreignAccessorTree, false⟩ := foreignAccessorFile.isReadFrom
  have hparsed : foreignProject.IsParsed parse := by
    refine Project.isParsed_of fun v hv => ?_
    obtain rfl := List.mem_singleton.mp hv
    rw [← treeOf_foreignAccessor] at hread
    exact hread
  have hu : u ∈ foreignProject.units := List.mem_singleton.mpr rfl
  obtain ⟨plan, hplan, rfl⟩ := exists_plan (r := r) (by decide +kernel) foreignProject
  have hfree : ¬ IsEntangled r foreignProject (.ofClasses r (selectedClasses r foreignProject.units)) u := by
    decide +kernel
  obtain ⟨hedits, hmodified⟩ : (Plan.ofClasses r (selectedClasses r foreignProject.units)).importEdits r u =
      [.insert 52 ", inject"] ∧ modifiedClasses r foreignProject u = u.classes := by
    decide +kernel
  have happly : (Plan.ofClasses r (selectedClasses r foreignProject.units)).log.apply u.path u.text =
      .ok migratedForeign := by
    rw [apply_of_not_isEntangled hplan hdistinct hparsed.ownsClasses hu hread hfree, hedits, hmodified,
      migratedText_foreignAccessor]
  obtain ⟨hplaced, hshaped, hnames, hnames'⟩ := migratedForeignTree_spec
  refine ⟨Parser.ofTable_placesNodes ?_, Parser.ofTable_followsGrammar ?_, hdistinct, hparsed, hu, rfl, ?_, _, hplan,
    by decide +kernel, migratedForeign, happly, ?_, ?_⟩
  · exact List.forall_mem_cons.mpr ⟨hread.placed, List.forall_mem_singleton.mpr hplaced⟩
  · exact List.forall_mem_cons.mpr ⟨hread.shaped, List.forall_mem_singleton.mpr hshaped⟩
  · rw [treeOf_foreignAccessor, hnames]
    decide
  · rw [treeOf_migratedForeign]
  · rw [treeOf_migratedForeign, hnames']
    decide

end FieldInjection
