import FieldInjection.Proofs.Planning.AccessorScope
import FieldInjection.Proofs.TypeScript.Surroundings

/-!
# What is read back from an amended file

When the import surface of a file has been amended, the parser reads the statement with one name more, or without a
keyword, and all else as before. So the file has the same classes and the same import statements, but for the one that
binds the name now, and there is nothing left to be reconciled (`reconcile_reads_back`). This takes for granted that the
statement does not stand in the parameters of a constructor: statements are found at any depth, and one that stands in
the argument of a decorator is amended there, which changes the annotations of a class
(`annotation_changed_with_import`).
-/

namespace FieldInjection

open TypeScript SyntaxNode

/-- What the parser does with a text into which a name has been written: it finds no errors, and where the name has been
written there is what the grammar makes of it, and all else reads as it did. -/
def Parser.RereadsAmendments (parse : Parser) (u : SourceUnit) (name : String) : Prop :=
  ∀ statement ∈ importStatements (u.treeOf parse u.text).root, ∀ e, IsWrittenIn u.text.toList name statement e →
    ∀ after, applyEdits u.text [e] = .ok after → (u.treeOf parse after).hasError = false ∧
      ChangedAt u.text.toList after.toList
        (fun n n' => n = statement ∧ FollowsEdit u.text.toList after.toList name e n n')
        (u.treeOf parse u.text).root (u.treeOf parse after).root

/-- The import statements of a module stand in nothing that is read for a class or for another statement. -/
def ImportsApart (source : List Char) (moduleName : String) (root : SyntaxNode) : Prop :=
  ∀ a ∈ root.nodes, ∀ part ∈ readParts source a, ∀ m ∈ part.nodes, ∀ i ∈ readImport? source m, i.moduleName ≠ moduleName

instance (source : List Char) (moduleName : String) (root : SyntaxNode) :
    Decidable (ImportsApart source moduleName root) :=
  inferInstanceAs (Decidable (∀ a ∈ root.nodes, ∀ part ∈ readParts source a, ∀ m ∈ part.nodes,
    ∀ i ∈ readImport? source m, _))

/-- A file has come of another one by an import: its classes are alike, and so are its import statements, but for one
statement of the module that has one value more and binds the name. -/
structure SourceUnit.GainsImport (moduleName name : String) (u u' : SourceUnit) : Prop where
  hasSyntaxErrors : u'.hasSyntaxErrors = false
  classes : List.Forall₂ ClassDecl.IsAlike u.classes u'.classes
  imports : DifferInOne ImportDecl.IsAlike
    (fun i j => i.moduleName = moduleName ∧ i.GainsValue name j ∧ j.binds name = true) u.imports u'.imports

section
variable {source source' : List Char} {moduleName name : String} {e : TextEdit} {file : Path} {n n' a a' : SyntaxNode}
  {i : ImportDecl} {root root' : SyntaxNode}

/-! ## What is found in the tree -/

/-- No class is found where the names of an import statement stand. -/
theorem passesOverParts_readClass? :
    PassesOverParts source source' ClassDecl.IsAlike (readClass? file source) (readClass? file source') := by
  have hpart : ∀ (text : List Char) (m : SyntaxNode), m.kind ∈ partKinds → readClass? file text m = none := by
    intro text m hm
    refine readClass?_eq_none ?_
    have hnone : ∀ kind ∈ partKinds, (kind == "class_declaration" || kind == "abstract_class_declaration") = false := by
      decide
    exact hnone m.kind hm
  exact ⟨fun _ _ hm => readClass?_alike hm, hpart source, hpart source'⟩

/-- Nor is another statement. -/
theorem passesOverParts_readImport? :
    PassesOverParts source source' ImportDecl.IsAlike (readImport? source) (readImport? source') := by
  have hpart : ∀ (text : List Char) (m : SyntaxNode), m.kind ∈ partKinds → readImport? text m = none := by
    intro text m hm
    refine readImport?_eq_none ?_
    rintro hkind
    rw [hkind] at hm
    revert hm
    decide
  exact ⟨fun _ _ hm => readImport?_alike hm, hpart source, hpart source'⟩

theorem rewritesStatement_of_amended (hi : readImport? source n = some i)
    (hfollows : FollowsEdit source source' name e n n') :
    RewritesStatement n n n' := by
  obtain ⟨module, himport, -⟩ := readImport?_eq_some hi
  exact ⟨rfl, himport.kind, (hfollows.amends.rest fun _ _ => hasLabelOf_of_amendsClause).1⟩

/-- The classes of a tree are alike when a statement has been amended. -/
theorem classes_amended (hamended : IsAmendedBy source moduleName name e n)
    (hapart : ImportsApart source moduleName root)
    (hchanged : ChangedAt source source' (fun m m' => m = n ∧ FollowsEdit source source' name e m m') root root') :
    List.Forall₂ ClassDecl.IsAlike (root.nodes.filterMap (readClass? file source))
      (root'.nodes.filterMap (readClass? file source')) := by
  obtain ⟨i, hi, hmodule, -, -⟩ := hamended
  refine hchanged.filterMap_nodes (fun _ _ hm => readClass?_alike hm) ?_ ?_
  · -- a node around the statement, which stands in no part from which a class is read
    intro a a' left right c c' ha hreplaces hchild
    refine readClass?_around hreplaces (hchild.mono ?_) fun part hpart hn => hapart a ha part hpart n hn i hi hmodule
    rintro m m' ⟨rfl, hfollows⟩
    exact rewritesStatement_of_amended hi hfollows
  · -- the statement itself is no class and has none below it that differs
    rintro m m' ⟨rfl, hfollows⟩
    obtain ⟨-, hkind, hlabel⟩ := rewritesStatement_of_amended hi hfollows
    have hclass : m.isClass = false := by simp [isClass, hkind]
    have hclass' : m'.isClass = false := isClass_eq_of_label hlabel ▸ hclass
    refine filterMap_nodes_rel ?_ (hfollows.amends.filterMap_children passesOverParts_readClass?)
    rw [readClass?_eq_none hclass, readClass?_eq_none hclass']
    exact .none

/-- The import statements of a tree are alike when one has been amended, but for this one. -/
theorem imports_amended (hamended : IsAmendedBy source moduleName name e n)
    (hapart : ImportsApart source moduleName root)
    (hchanged : ChangedAt source source' (fun m m' => m = n ∧ FollowsEdit source source' name e m m') root root') :
    DifferInOne ImportDecl.IsAlike
      (fun i j => i.moduleName = moduleName ∧ i.GainsValue name j ∧ j.binds name = true)
      (root.nodes.filterMap (readImport? source)) (root'.nodes.filterMap (readImport? source')) := by
  obtain ⟨i, hi, hmodule, hvalue, -⟩ := hamended
  refine hchanged.differInOne (fun _ _ hm => readImport?_alike hm) ?_ ?_
  · -- a node around the statement is no import statement itself
    intro a a' left right c c' ha hreplaces hchild
    obtain ⟨m, hm, _, -, rfl, -⟩ := hchild.exists_changed
    have hstatement : a.kind ≠ "import_statement" := by
      intro hkind
      have hpart : c ∈ readParts source a := by simp [readParts, isClass, hkind, hreplaces.mem]
      exact hapart a ha c hpart m hm i hi hmodule
    rw [readImport?_eq_none hstatement, readImport?_eq_none (hreplaces.label.kind ▸ hstatement)]
    exact .none
  · rintro m m' ⟨rfl, hfollows⟩
    obtain ⟨j, hj, hgains⟩ := readImport?_amended hfollows.amends hi
    have hbinds : j.binds name = true := by
      simp [ImportDecl.binds, ← hgains.isTypeOnly, hvalue, hgains.mem]
    refine ⟨[], i, _, [], j, _, ?_, ?_, .nil, ⟨hmodule, hgains, hbinds⟩,
      hfollows.amends.filterMap_children passesOverParts_readImport?⟩
    · rw [SyntaxNode.filterMap_nodes, hi]
      rfl
    · rw [SyntaxNode.filterMap_nodes, hj]
      rfl

end

namespace ImportSurface

section
variable {moduleName name : String} {u : SourceUnit} {log : EditLog} {i : ImportDecl}

/-- A file is amended with one edit, for one of its statements from the module. -/
theorem reconcile_amended (h : reconcile moduleName name u .empty = .ok (log, .amended)) :
    ∃ e, log.edits = [⟨u.path, .addNamedImport moduleName name, e⟩] ∧ amend name (u.importsFrom moduleName) = .ok e := by
  rw [reconcile_eq] at h
  split at h
  · cases h
  · split at h
    · cases h
    · rename_i e hamend
      cases h
      exact ⟨e, rfl, hamend⟩

/-- A file with a statement that binds the name has nothing to be reconciled. -/
theorem reconcile_of_binds (hi : i ∈ u.imports) (hmodule : i.moduleName = moduleName) (hbinds : i.binds name = true)
    (log : EditLog) : reconcile moduleName name u log = .ok (log, .alreadyImported) := by
  have hmem : i ∈ u.importsFrom moduleName := SourceUnit.mem_importsFrom.mpr ⟨hi, hmodule⟩
  have hsome : (u.importsFrom moduleName).isEmpty = false := List.isEmpty_eq_false_iff.mpr (List.ne_nil_of_mem hmem)
  have hany : (u.importsFrom moduleName).any (fun i => i.binds name) = true := List.any_eq_true.mpr ⟨i, hmem, hbinds⟩
  rw [reconcile_eq, isSettled, hsome, hany]
  rfl

/-- **Reconciling reads back.** If the import surface of a file without errors is amended, its one edit can be made,
and the file that is read from the outcome has the same classes and imports the same names, but for one statement of
the module: it has one value more, behind its other names or in the place of a type of that name. So the statement
binds the name, and nothing is left to be reconciled. This holds where the statements of the module stand in no
parameters of a constructor, in no name of a class or member, and in no other statement.
-/
theorem reconcile_reads_back {parse : Parser} (hplaces : parse.PlacesNodes) (hgrammar : parse.FollowsGrammar)
    {path relativePath : Path} {text : String} (hread : readUnit path relativePath text parse = u)
    (herrors : u.hasSyntaxErrors = false) (hapart : ImportsApart text.toList moduleName (u.treeOf parse text).root)
    (hrereads : parse.RereadsAmendments u name) (h : reconcile moduleName name u .empty = .ok (log, .amended)) :
    ∃ e after, log.edits = [⟨path, .addNamedImport moduleName name, e⟩] ∧ log.apply path text = .ok after ∧
      u.GainsImport moduleName name (readUnit path relativePath after parse) ∧
      reconcile moduleName name (readUnit path relativePath after parse) .empty = .ok (.empty, .alreadyImported) := by
  subst hread
  have hplaced := hplaces (grammarOf path) text herrors
  have hshaped := hgrammar (grammarOf path) text herrors
  -- the edit amends the statement of some node
  obtain ⟨e, hedits, hamend⟩ := reconcile_amended h
  obtain ⟨statement, hmem, hamended⟩ := exists_isAmendedBy hamend
  -- it stands at a place of the text
  obtain ⟨after, hafter⟩ : ∃ after, applyEdits text [e] = .ok after := by
    have hplace := range_amend hamend fun j hj =>
      readTree_changesAt hplaced hshaped (SourceUnit.mem_importsFrom.mp hj).1
    obtain ⟨_, _, _, _, clause, _, hvalid⟩ := hplace
    exact applyEdits_isOk_iff.mpr ⟨List.forall_mem_singleton.mpr hvalid.isValidFor, List.pairwise_singleton _ _⟩
  have happly : log.apply path text = .ok after := by
    rw [EditLog.apply, EditLog.forFile, hedits]
    have hpath : (readUnit path relativePath text parse).path = path := rfl
    simpa [hpath] using hafter
  obtain ⟨herrors', hchanged⟩ := hrereads statement hmem e (isWrittenIn_of_isAmendedBy hamended) after hafter
  have hplaced' := hplaces (grammarOf path) after herrors'
  have hshaped' := hgrammar (grammarOf path) after herrors'
  have hgains : (readUnit path relativePath text parse).GainsImport moduleName name
      (readUnit path relativePath after parse) := by
    refine ⟨herrors', ?_, ?_⟩
    · rw [readUnit, readUnit, classes_readTree hplaced hshaped, classes_readTree hplaced' hshaped']
      exact classes_amended hamended hapart hchanged
    · rw [readUnit, readUnit, imports_readTree hplaced, imports_readTree hplaced']
      exact imports_amended hamended hapart hchanged
  refine ⟨e, after, hedits, happly, hgains, ?_⟩
  obtain ⟨before, j, behind, before', j', behind', -, himports', -, ⟨hmodule', hgains', hbinds⟩, -⟩ := hgains.imports
  refine reconcile_of_binds (i := j') ?_ (hgains'.moduleName ▸ hmodule') hbinds _
  rw [himports']
  exact List.mem_append_right _ List.mem_cons_self

end

end ImportSurface

/-! ## A list with comments -/

/-- A file that imports a default binding and a list, with a comment in the list and a comma at its end. -/
def mixedImport : SourceUnit where
  path := ⟨"a.ts"⟩
  relativePath := ⟨"a.ts"⟩
  text := "import M, \x7b a, /* b */ type T, \x7d from 'm';\nclass A \x7b constructor(@Host() x: X) \x7b\x7d \x7d\n"
  classes := [⟨"A", ⟨"a.ts"⟩, ⟨43, 83⟩, 52, "    ", true, .lf,
    some ⟨[⟨"x", .identifier, some "X", false, false, none, [⟨"@Host()", .flag .host⟩], ⟨65, 77⟩⟩], ⟨65, 77⟩, 0⟩⟩]
  imports := [⟨"m", ["a"], [⟨"T", ⟨23, 28⟩⟩], false, ⟨0, 42⟩, .afterLastSpecifier 29⟩]
  hasSyntaxErrors := false

/-- This file with one name more. -/
def mixedImportAgain : SourceUnit where
  path := ⟨"a.ts"⟩
  relativePath := ⟨"a.ts"⟩
  text := "import M, \x7b a, /* b */ type T, inject, \x7d from 'm';\n" ++
    "class A \x7b constructor(@Host() x: X) \x7b\x7d \x7d\n"
  classes := [⟨"A", ⟨"a.ts"⟩, ⟨51, 91⟩, 60, "    ", true, .lf,
    some ⟨[⟨"x", .identifier, some "X", false, false, none, [⟨"@Host()", .flag .host⟩], ⟨73, 85⟩⟩], ⟨73, 85⟩, 0⟩⟩]
  imports := [⟨"m", ["a", "inject"], [⟨"T", ⟨23, 28⟩⟩], false, ⟨0, 50⟩, .afterLastSpecifier 37⟩]
  hasSyntaxErrors := false

/-- The list of names of that file. -/
def mixedNames : SyntaxNode :=
  .rule "named_imports" none 10 32 [
    .token "\x7b" 10, .rule "import_specifier" none 12 13 [.rule "identifier" (some "name") 12 13 []],
    .token "," 13, .rule "comment" none 15 22 [],
    .rule "import_specifier" none 23 29 [.token "type" 23, .rule "identifier" (some "name") 28 29 []],
    .token "," 29, .token "\x7d" 31]

/-- The name behind the last one. -/
def addedName : SyntaxNode := .rule "import_specifier" none 31 37 [.rule "identifier" (some "name") 31 37 []]

def mixedNamesAgain : SyntaxNode :=
  .rule "named_imports" none 10 40 [
    .token "\x7b" 10, .rule "import_specifier" none 12 13 [.rule "identifier" (some "name") 12 13 []],
    .token "," 13, .rule "comment" none 15 22 [],
    .rule "import_specifier" none 23 29 [.token "type" 23, .rule "identifier" (some "name") 28 29 []],
    .token "," 29, addedName, .token "," 37, .token "\x7d" 39]

def mixedStatement : SyntaxNode :=
  .rule "import_statement" none 0 42 [
    .token "import" 0,
    .rule "import_clause" none 7 32 [.rule "identifier" none 7 8 [], .token "," 8, mixedNames],
    .token "from" 33,
    .rule "string" (some "source") 38 41 [.token "'" 38, .rule "string_fragment" none 39 40 [], .token "'" 40],
    .token ";" 41]

def mixedStatementAgain : SyntaxNode :=
  .rule "import_statement" none 0 50 [
    .token "import" 0,
    .rule "import_clause" none 7 40 [.rule "identifier" none 7 8 [], .token "," 8, mixedNamesAgain],
    .token "from" 41,
    .rule "string" (some "source") 46 49 [.token "'" 46, .rule "string_fragment" none 47 48 [], .token "'" 48],
    .token ";" 49]

/-- The class of that file, from where it starts. -/
def hostedClass (start : Nat) : SyntaxNode :=
  .rule "class_declaration" none start (start + 40) [
    .token "class" start, .rule "type_identifier" (some "name") (start + 6) (start + 7) [],
    .rule "class_body" (some "body") (start + 8) (start + 40) [
      .token "\x7b" (start + 8),
      .rule "method_definition" none (start + 10) (start + 38) [
        .rule "property_identifier" (some "name") (start + 10) (start + 21) [],
        .rule "formal_parameters" (some "parameters") (start + 21) (start + 35) [
          .token "(" (start + 21),
          .rule "required_parameter" none (start + 22) (start + 34) [
            .rule "decorator" (some "decorator") (start + 22) (start + 29) [
              .token "@" (start + 22),
              .rule "call_expression" none (start + 23) (start + 29) [
                .rule "identifier" (some "function") (start + 23) (start + 27) [],
                .rule "arguments" (some "arguments") (start + 27) (start + 29) [
                  .token "(" (start + 27), .token ")" (start + 28)]]],
            .rule "identifier" (some "pattern") (start + 30) (start + 31) [],
            .rule "type_annotation" (some "type") (start + 31) (start + 34) [
              .token ":" (start + 31), .rule "type_identifier" none (start + 33) (start + 34) []]],
          .token ")" (start + 34)],
        .rule "statement_block" (some "body") (start + 36) (start + 38) [
          .token "\x7b" (start + 36), .token "\x7d" (start + 37)]],
      .token "\x7d" (start + 39)]]

def mixedImportFile : ParsedFile where
  unit := mixedImport
  root := .rule "program" none 0 84 [mixedStatement, hostedClass 43]
  isReadFrom := SourceUnit.isReadFrom_of String.toList_ofList (by decide +kernel)

def mixedImportAgainFile : ParsedFile where
  unit := mixedImportAgain
  root := .rule "program" none 0 92 [mixedStatementAgain, hostedClass 51]
  isReadFrom := SourceUnit.isReadFrom_of (toList_append_ofList String.toList_ofList) (by decide +kernel)

/-- A parser that knows both files. -/
def mixedParser : Parser := .ofFiles [mixedImportFile, mixedImportAgainFile]

theorem mixedImport_apart : ImportsApart mixedImport.text.toList "m" mixedImportFile.root := by
  rw [show mixedImport.text.toList = _ from String.toList_ofList]
  decide +kernel

theorem mixedFiles_distinct :
    [mixedImportFile, mixedImportAgainFile].Pairwise fun f g => g.unit.text ≠ f.unit.text := by
  have hne : mixedImportAgain.text ≠ mixedImport.text := by decide +kernel
  exact List.pairwise_pair.mpr hne

theorem mixedParser_eq (grammar : Grammar) :
    mixedParser grammar mixedImport.text = ⟨mixedImportFile.root, false⟩ ∧
      mixedParser grammar mixedImportAgain.text = ⟨mixedImportAgainFile.root, false⟩ :=
  ⟨Parser.ofFiles_eq mixedFiles_distinct List.mem_cons_self grammar,
    Parser.ofFiles_eq mixedFiles_distinct (List.mem_cons_of_mem _ List.mem_cons_self) grammar⟩

theorem addedName_isNameOf : IsNameOf mixedImportAgain.text.toList "inject" addedName := by
  refine ⟨rfl, rfl, _, rfl, rfl, rfl, rfl, rfl, ?_⟩
  rw [show mixedImportAgain.text.toList = _ from toList_append_ofList String.toList_ofList]
  decide +kernel

/-- The statement has become what the grammar makes of it, and all else reads alike. -/
theorem mixedImport_changed : ChangedAt mixedImport.text.toList mixedImportAgain.text.toList
    (fun n n' => n = mixedStatement ∧
      FollowsEdit mixedImport.text.toList mixedImportAgain.text.toList "inject" (.insert 29 ", inject") n n')
    mixedImportFile.root mixedImportAgainFile.root := by
  have hadded := addedName_isNameOf
  rw [show mixedImportAgain.text.toList = _ from toList_append_ofList String.toList_ofList] at hadded ⊢
  rw [show mixedImport.text.toList = _ from String.toList_ofList]
  refine .inChild (replacesChild_of_getElem? (k := 0) ⟨rfl, rfl, rfl⟩ rfl rfl (by decide +kernel) (by decide +kernel))
    (.here ⟨rfl, followsEdit_of_addsName (by decide) ?_⟩)
  refine .intro (replacesChild_of_getElem? (k := 1) ⟨rfl, rfl, rfl⟩ rfl rfl (by decide +kernel) (by decide +kernel))
    rfl rfl rfl (by decide +kernel) (Or.inl ?_)
  refine .intro (replacesChild_of_getElem? (k := 2) ⟨rfl, rfl, rfl⟩ rfl rfl (by decide +kernel) (by decide +kernel))
    rfl rfl (by decide +kernel) ?_
  refine .intro (show InsertsChildren _ _ (mixedNames.children.take 5) ([.token "," 29] ++ [addedName])
    (mixedNames.children.drop 5) mixedNames mixedNamesAgain from ?_) (by decide +kernel) hadded (by decide +kernel)
  exact @insertsChildren_of_take _ _ mixedNames mixedNamesAgain 5 2 ⟨rfl, rfl, rfl⟩ (by decide +kernel)
    (by decide +kernel)

theorem mixedNames_ne : ∀ specifier ∈ mixedNames.children.filter isSpecifier, ∀ bound ∈ localName? specifier,
    bound.text mixedImport.text.toList ≠ "inject" := by
  rw [show mixedImport.text.toList = _ from String.toList_ofList]
  decide +kernel

/-- Behind the last name is the only place at which a name can be written into that file. -/
theorem mixedImport_isWrittenIn {statement : SyntaxNode} {e : TextEdit}
    (hstatement : statement ∈ importStatements mixedImportFile.root)
    (hwritten : IsWrittenIn mixedImport.text.toList "inject" statement e) :
    statement = mixedStatement ∧ e = .insert 29 ", inject" := by
  obtain rfl : statement = mixedStatement := List.mem_singleton.mp hstatement
  refine ⟨rfl, ?_⟩
  have hlistOf : nameList? mixedStatement = some mixedNames := rfl
  cases hwritten with
  | behindLast hlist hlast =>
    obtain rfl := Option.some.inj (hlistOf.symm.trans hlist)
    cases hlast
    rfl
  | alone hlist hnone =>
    obtain rfl := Option.some.inj (hlistOf.symm.trans hlist)
    cases hnone
  | behindDefault hclause hnone =>
    cases hclause
    cases hnone
  | withoutKeyword hlist hspecifier hmodifier hbound htext =>
    obtain rfl := Option.some.inj (hlistOf.symm.trans hlist)
    exact absurd htext (mixedNames_ne _ hspecifier _ hbound)

theorem applyEdits_singleton {text after : String} {source source' : List Char} {e : TextEdit}
    (hsource : text.toList = source) (hsource' : after.toList = source')
    (h : applyOrdered source 0 none [e] = .ok source') : applyEdits text [e] = .ok after := by
  rw [applyEdits, List.mergeSort_singleton, hsource, h, ← hsource', Except.map, String.ofList_toList]

theorem applyEdits_mixedImport :
    applyEdits mixedImport.text [.insert 29 ", inject"] = .ok mixedImportAgain.text :=
  applyEdits_singleton String.toList_ofList (toList_append_ofList String.toList_ofList) (by decide +kernel)

theorem mixedParser_rereads : mixedParser.RereadsAmendments mixedImport "inject" := by
  intro statement hstatement e hwritten after hafter
  have htree : mixedImport.treeOf mixedParser mixedImport.text = ⟨mixedImportFile.root, false⟩ := (mixedParser_eq _).1
  rw [htree] at hstatement ⊢
  obtain ⟨rfl, rfl⟩ := mixedImport_isWrittenIn hstatement hwritten
  obtain rfl : mixedImportAgain.text = after := Except.ok.inj (applyEdits_mixedImport.symm.trans hafter)
  have htree' : mixedImport.treeOf mixedParser mixedImportAgain.text = ⟨mixedImportAgainFile.root, false⟩ :=
    (mixedParser_eq _).2
  rw [htree']
  exact ⟨rfl, mixedImport_changed⟩

/-- A name is added to that file behind the comment and the type, and all else is read as before. -/
theorem reconcile_reads_back_mixed :
    let parse := mixedParser
    parse.PlacesNodes ∧ parse.FollowsGrammar ∧
      TypeScript.readUnit ⟨"a.ts"⟩ ⟨"a.ts"⟩ mixedImport.text parse = mixedImport ∧ mixedImport.hasSyntaxErrors = false ∧
      ImportsApart mixedImport.text.toList "m" (mixedImport.treeOf parse mixedImport.text).root ∧
      parse.RereadsAmendments mixedImport "inject" ∧
      ∃ log, ImportSurface.reconcile "m" "inject" mixedImport .empty = .ok (log, .amended) ∧
        log.apply ⟨"a.ts"⟩ mixedImport.text = .ok mixedImportAgain.text ∧
        mixedImport.GainsImport "m" "inject" mixedImportAgain ∧
        ImportSurface.reconcile "m" "inject" mixedImportAgain .empty = .ok (.empty, .alreadyImported) := by
  intro parse
  have hplaces : parse.PlacesNodes := Parser.ofFiles_placesNodes
  have hgrammar : parse.FollowsGrammar := Parser.ofFiles_followsGrammar
  have hread : TypeScript.readUnit ⟨"a.ts"⟩ ⟨"a.ts"⟩ mixedImport.text parse = mixedImport :=
    Parser.readUnit_ofFiles mixedFiles_distinct (List.mem_cons_self (a := mixedImportFile))
  have hagain : TypeScript.readUnit ⟨"a.ts"⟩ ⟨"a.ts"⟩ mixedImportAgain.text parse = mixedImportAgain :=
    Parser.readUnit_ofFiles mixedFiles_distinct
      (List.mem_cons_of_mem _ (List.mem_cons_self (a := mixedImportAgainFile)))
  have hapart : ImportsApart mixedImport.text.toList "m" (mixedImport.treeOf parse mixedImport.text).root := by
    rw [show mixedImport.treeOf parse mixedImport.text = _ from (mixedParser_eq _).1]
    exact mixedImport_apart
  obtain ⟨log, hlog, hamended⟩ : ∃ log,
      (log.forFile ⟨"a.ts"⟩).map PlannedEdit.edit = [.insert 29 ", inject"] ∧
      ImportSurface.reconcile "m" "inject" mixedImport .empty = .ok (log, .amended) := ⟨_, rfl, rfl⟩
  have happly : log.apply ⟨"a.ts"⟩ mixedImport.text = .ok mixedImportAgain.text := by
    rw [EditLog.apply, hlog, applyEdits_mixedImport]
  obtain ⟨e, after, -, happly', hgains, hsettled⟩ :=
    ImportSurface.reconcile_reads_back hplaces hgrammar hread rfl hapart mixedParser_rereads hamended
  obtain rfl : mixedImportAgain.text = after := Except.ok.inj (happly.symm.trans happly')
  rw [hagain] at hgains hsettled
  exact ⟨hplaces, hgrammar, hread, rfl, hapart, mixedParser_rereads, log, hamended, happly, hgains, hsettled⟩

/-! ## A statement in a decorator -/

/-- A file whose only import statement stands in the argument of a decorator. -/
def importInDecorator : SourceUnit where
  path := ⟨"a.ts"⟩
  relativePath := ⟨"a.ts"⟩
  text := "class AComponent \x7b\n" ++
    "  constructor(@Inject(() => \x7b import \x7b C \x7d from '@angular/core'; \x7d) a: A) \x7b\x7d\n\x7d\n"
  classes := [⟨"AComponent", ⟨"a.ts"⟩, ⟨0, 97⟩, 18, "  ", true, .lf,
    some ⟨[⟨"a", .identifier, some "A", false, false, none,
      [⟨"@Inject(() => \x7b import \x7b C \x7d from '@angular/core'; \x7d)",
        .token "() => \x7b import \x7b C \x7d from '@angular/core'; \x7d"⟩], ⟨33, 91⟩⟩], ⟨33, 91⟩, 0⟩⟩]
  imports := [⟨"@angular/core", ["C"], [], false, ⟨49, 83⟩, .afterLastSpecifier 59⟩]
  hasSyntaxErrors := false

/-- This file with one name more. -/
def importInDecoratorAgain : SourceUnit where
  path := ⟨"a.ts"⟩
  relativePath := ⟨"a.ts"⟩
  text := "class AComponent \x7b\n" ++
    "  constructor(@Inject(() => \x7b import \x7b C, inject \x7d from '@angular/core'; \x7d) a: A) \x7b\x7d\n\x7d\n"
  classes := [⟨"AComponent", ⟨"a.ts"⟩, ⟨0, 105⟩, 18, "  ", true, .lf,
    some ⟨[⟨"a", .identifier, some "A", false, false, none,
      [⟨"@Inject(() => \x7b import \x7b C, inject \x7d from '@angular/core'; \x7d)",
        .token "() => \x7b import \x7b C, inject \x7d from '@angular/core'; \x7d"⟩], ⟨33, 99⟩⟩], ⟨33, 99⟩, 0⟩⟩]
  imports := [⟨"@angular/core", ["C", "inject"], [], false, ⟨49, 91⟩, .afterLastSpecifier 67⟩]
  hasSyntaxErrors := false

def importInDecoratorTree : SyntaxNode :=
  .rule "program" none 0 98 [
    .rule "class_declaration" none 0 97 [
      .token "class" 0, .rule "type_identifier" (some "name") 6 16 [],
      .rule "class_body" (some "body") 17 97 [
        .token "\x7b" 17,
        .rule "method_definition" none 21 95 [
          .rule "property_identifier" (some "name") 21 32 [],
          .rule "formal_parameters" (some "parameters") 32 92 [
            .token "(" 32,
            .rule "required_parameter" none 33 91 [
              .rule "decorator" (some "decorator") 33 86 [
                .token "@" 33,
                .rule "call_expression" none 34 86 [
                  .rule "identifier" (some "function") 34 40 [],
                  .rule "arguments" (some "arguments") 40 86 [
                    .token "(" 40,
                    .rule "arrow_function" none 41 85 [
                      .rule "formal_parameters" (some "parameters") 41 43 [.token "(" 41, .token ")" 42],
                      .token "=>" 44,
                      .rule "statement_block" (some "body") 47 85 [
                        .token "\x7b" 47,
                        .rule "import_statement" none 49 83 [
                          .token "import" 49,
                          .rule "import_clause" none 56 61 [
                            .rule "named_imports" none 56 61 [
                              .token "\x7b" 56,
                              .rule "import_specifier" none 58 59 [.rule "identifier" (some "name") 58 59 []],
                              .token "\x7d" 60]],
                          .token "from" 62,
                          .rule "string" (some "source") 67 82 [
                            .token "'" 67, .rule "string_fragment" none 68 81 [], .token "'" 81],
                          .token ";" 82],
                        .token "\x7d" 84]],
                    .token ")" 85]]],
              .rule "identifier" (some "pattern") 87 88 [],
              .rule "type_annotation" (some "type") 88 91 [.token ":" 88, .rule "type_identifier" none 90 91 []]],
            .token ")" 91],
          .rule "statement_block" (some "body") 93 95 [.token "\x7b" 93, .token "\x7d" 94]],
        .token "\x7d" 96]]]

def importInDecoratorAgainTree : SyntaxNode :=
  .rule "program" none 0 106 [
    .rule "class_declaration" none 0 105 [
      .token "class" 0, .rule "type_identifier" (some "name") 6 16 [],
      .rule "class_body" (some "body") 17 105 [
        .token "\x7b" 17,
        .rule "method_definition" none 21 103 [
          .rule "property_identifier" (some "name") 21 32 [],
          .rule "formal_parameters" (some "parameters") 32 100 [
            .token "(" 32,
            .rule "required_parameter" none 33 99 [
              .rule "decorator" (some "decorator") 33 94 [
                .token "@" 33,
                .rule "call_expression" none 34 94 [
                  .rule "identifier" (some "function") 34 40 [],
                  .rule "arguments" (some "arguments") 40 94 [
                    .token "(" 40,
                    .rule "arrow_function" none 41 93 [
                      .rule "formal_parameters" (some "parameters") 41 43 [.token "(" 41, .token ")" 42],
                      .token "=>" 44,
                      .rule "statement_block" (some "body") 47 93 [
                        .token "\x7b" 47,
                        .rule "import_statement" none 49 91 [
                          .token "import" 49,
                          .rule "import_clause" none 56 69 [
                            .rule "named_imports" none 56 69 [
                              .token "\x7b" 56,
                              .rule "import_specifier" none 58 59 [.rule "identifier" (some "name") 58 59 []],
                              .token "," 59,
                              .rule "import_specifier" none 61 67 [.rule "identifier" (some "name") 61 67 []],
                              .token "\x7d" 68]],
                          .token "from" 70,
                          .rule "string" (some "source") 75 90 [
                            .token "'" 75, .rule "string_fragment" none 76 89 [], .token "'" 89],
                          .token ";" 90],
                        .token "\x7d" 92]],
                    .token ")" 93]]],
              .rule "identifier" (some "pattern") 95 96 [],
              .rule "type_annotation" (some "type") 96 99 [.token ":" 96, .rule "type_identifier" none 98 99 []]],
            .token ")" 99],
          .rule "statement_block" (some "body") 101 103 [.token "\x7b" 101, .token "\x7d" 102]],
        .token "\x7d" 104]]]

def importInDecoratorFile : ParsedFile where
  unit := importInDecorator
  root := importInDecoratorTree
  isReadFrom := SourceUnit.isReadFrom_of (toList_append_ofList String.toList_ofList) (by decide +kernel)

def importInDecoratorAgainFile : ParsedFile where
  unit := importInDecoratorAgain
  root := importInDecoratorAgainTree
  isReadFrom := SourceUnit.isReadFrom_of (toList_append_ofList String.toList_ofList) (by decide +kernel)

/-- The name is added inside the decorator, which changes the annotation of the parameter. -/
theorem annotation_changed_with_import :
    let parse := Parser.ofFiles [importInDecoratorFile, importInDecoratorAgainFile]
    let again := TypeScript.readUnit ⟨"a.ts"⟩ ⟨"a.ts"⟩ importInDecoratorAgain.text parse
    parse.PlacesNodes ∧ parse.FollowsGrammar ∧
      TypeScript.readUnit ⟨"a.ts"⟩ ⟨"a.ts"⟩ importInDecorator.text parse = importInDecorator ∧
      importInDecorator.hasSyntaxErrors = false ∧
      ∃ log, ImportSurface.reconcile "@angular/core" "inject" importInDecorator .empty = .ok (log, .amended) ∧
        log.apply ⟨"a.ts"⟩ importInDecorator.text = .ok importInDecoratorAgain.text ∧ again.hasSyntaxErrors = false ∧
        ¬ List.Forall₂ ClassDecl.IsAlike importInDecorator.classes again.classes := by
  intro parse again
  have hdistinct : [importInDecoratorFile, importInDecoratorAgainFile].Pairwise fun f g => g.unit.text ≠ f.unit.text := by
    have hne : importInDecoratorAgain.text ≠ importInDecorator.text := by decide +kernel
    exact List.pairwise_pair.mpr hne
  have hagain : again = importInDecoratorAgain :=
    Parser.readUnit_ofFiles hdistinct (List.mem_cons_of_mem _ (List.mem_cons_self (a := importInDecoratorAgainFile)))
  obtain ⟨log, hlog, hamended⟩ : ∃ log,
      (log.forFile ⟨"a.ts"⟩).map PlannedEdit.edit = [.insert 59 ", inject"] ∧
      ImportSurface.reconcile "@angular/core" "inject" importInDecorator .empty = .ok (log, .amended) := ⟨_, rfl, rfl⟩
  refine ⟨Parser.ofFiles_placesNodes, Parser.ofFiles_followsGrammar,
    Parser.readUnit_ofFiles hdistinct (List.mem_cons_self (a := importInDecoratorFile)), rfl, log, hamended, ?_, ?_, ?_⟩
  · rw [EditLog.apply, hlog]
    exact applyEdits_singleton (toList_append_ofList String.toList_ofList) (toList_append_ofList String.toList_ofList)
      (by decide +kernel)
  · rw [hagain]
    rfl
  · rw [hagain]
    intro hclasses
    cases hclasses with
    | cons hclass _ =>
      cases hclass.constructor? with
      | some hconstructor =>
        cases hconstructor.parameters with
        | cons hparameter _ => exact absurd (congrArg Parameter.decorators hparameter) (by decide)

end FieldInjection
