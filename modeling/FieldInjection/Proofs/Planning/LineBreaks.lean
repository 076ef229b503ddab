import FieldInjection.Proofs.Planning.Conflict
import FieldInjection.Proofs.TypeScript.LineBreaks
import FieldInjection.Proofs.TypeScript.MemberIndents

/-!
# The line breaks of a migrated file

All that a plan inserts into a file is made of texts of its nodes, of the accessor's name, and of line breaks of the
kind that the file's first line ends with. So a file keeps its kind of line breaks (`migration_keeps_lineBreaks`):
line feeds go on following carriage returns where no flag is written into an options literal, and no carriage return
is added to a file without one. A file of a single line is given line feeds (`feeds_inserted_in_singleLine`).
-/

namespace FieldInjection

/-- No parameter of the class switches an option of the accessor call on. -/
def ClassDecl.HasNoFlags (c : ClassDecl) : Prop :=
  ∀ q ∈ c.parameters, (ResolutionOptions.ofDecorators q.decorators).enabled = []

instance (c : ClassDecl) : Decidable c.HasNoFlags :=
  inferInstanceAs (Decidable (∀ q ∈ c.parameters, (ResolutionOptions.ofDecorators q.decorators).enabled = []))

section
variable {P : List Char → Prop} {q : Parameter} {c : ClassDecl} {r : Request}

/-! ## Texts that are inserted -/

theorem IsLineProperty.flatMap {α : Type} (hP : IsLineProperty P) {l : List α} {f : α → List Char}
    (h : ∀ x ∈ l, P (f x)) : P (l.flatMap f) := by
  induction l with
  | nil => exact hP.unbroken _ (by simp) (by simp)
  | cons x l ih =>
    rw [List.flatMap_cons]
    exact hP.append _ _ (h x List.mem_cons_self) (ih fun y hy => h y (List.mem_cons_of_mem x hy))

theorem IsLineProperty.append_string (hP : IsLineProperty P) {s t : String} (hs : P s.toList) (ht : P t.toList) :
    P (s ++ t).toList := by
  rw [String.toList_append]
  exact hP.append _ _ hs ht

/-- The target of an accessor call is a text of its parameter. -/
theorem Parameter.HasTexts.target {className target : String} {Q : String → Prop} (hq : q.HasTexts Q)
    (h : Accessor.target className q = .ok target) : Q target := by
  unfold Accessor.target at h
  split at h
  · rename_i token htoken
    cases h
    obtain ⟨d, hd, hkind⟩ := List.exists_of_findSome?_eq_some htoken
    refine hq.token d hd target ?_
    cases hk : d.kind with
    | token text =>
      rw [hk] at hkind
      exact congrArg DecoratorKind.token (Option.some.inj hkind)
    | flag option =>
      rw [hk] at hkind
      cases hkind
    | unrecognized =>
      rw [hk] at hkind
      cases hkind
  · split at h
    · rename_i type htype
      cases h
      exact hq.declaredType target htype
    · cases h

theorem initializer_hasProperty (hP : IsLineProperty P) (hq : q.HasTexts fun s => P s.toList)
    {function className initializer : String} (hname : P function.toList)
    (hoptions : P (ResolutionOptions.ofDecorators q.decorators).render.toList)
    (h : Accessor.call function className q = .ok initializer) : P initializer.toList := by
  have hsign : ∀ sign ∈ ["(", ",", ")"], P sign.toList := by
    intro sign hsign
    have hbreaks : ∀ sign ∈ ["(", ",", ")"], '\n' ∉ sign.toList ∧ '\r' ∉ sign.toList := by decide
    exact hP.unbroken _ (hbreaks sign hsign).1 (hbreaks sign hsign).2
  unfold Accessor.call at h
  cases htarget : Accessor.target className q with
  | error refusal =>
    rw [htarget] at h
    cases h
  | ok target =>
    rw [htarget] at h
    simp only [Except.ok.injEq] at h
    have htext := hq.target htarget
    have hopened := hP.append_string (hP.append_string hname (hsign "(" (by decide))) htext
    rw [← h]
    split
    · exact hP.append_string hopened (hsign ")" (by decide))
    · exact hP.append_string (hP.append_string (hP.append_string hopened (hsign "," (by decide))) hoptions)
        (hsign ")" (by decide))

theorem promotedField_hasProperty (hP : IsLineProperty P) (hq : q.HasTexts fun s => P s.toList)
    (hname : P r.accessorFunction.toList)
    (hoptions : P (ResolutionOptions.ofDecorators q.decorators).render.toList) :
    P (promotedField r c q).toList := by
  have hempty : P "".toList := hP.unbroken _ (by decide) (by decide)
  unfold promotedField FieldPromotion.fieldOf
  cases hcall : Accessor.call r.accessorFunction c.name q with
  | error refusal => exact hempty
  | ok initializer =>
    have hinitializer := initializer_hasProperty hP hq hname hoptions hcall
    have hname := hq.name
    -- the modifiers, the name, the type and the initializer
    simp only [Field.render]
    refine hP.append_string (hP.append_string (hP.append_string (hP.append_string (hP.append_string
      (hP.append_string (hP.append_string ?_ ?_) ?_) hname) ?_) ?_) hinitializer) ?_
    · cases q.scope with
      | none => exact hempty
      | some scope => cases scope <;> exact hP.unbroken _ (by decide) (by decide)
    · split <;> exact hP.unbroken _ (by decide) (by decide)
    · split <;> exact hP.unbroken _ (by decide) (by decide)
    · cases htype : q.declaredType with
      | none => exact hempty
      | some type =>
        exact hP.append_string (hP.unbroken _ (by decide) (by decide)) (hq.declaredType type htype)
    · exact hP.unbroken _ (by decide) (by decide)
    · exact hP.unbroken _ (by decide) (by decide)

/-- The fields of a class have the property if the texts of its parameters do. -/
theorem promotedBlock_hasProperty (hP : IsLineProperty P)
    (hparameters : ∀ q ∈ c.parameters, q.HasTexts fun s => P s.toList) (hname : P r.accessorFunction.toList)
    (hoptions : ∀ q ∈ c.parameters, P (ResolutionOptions.ofDecorators q.decorators).render.toList)
    (hending : P c.lineEnding.text.toList) (hindent : P c.memberIndent.toList) : P (promotedBlock r c).toList := by
  refine hP.append_string (hP.join ?_) ?_
  · intro line hline
    obtain ⟨q, hq, rfl⟩ := List.mem_map.mp hline
    exact hP.append_string (hP.append_string hending hindent)
      (promotedField_hasProperty hP (hparameters q hq) hname (hoptions q hq))
  · split
    · exact hending
    · exact hP.unbroken _ (by decide) (by decide)

/-- An options literal holds no carriage return. -/
theorem render_noReturn (os : ResolutionOptions) : '\r' ∉ os.render.toList := by
  have hP := isLineProperty_noReturn
  have hentries : ∀ (keys : List ResolutionOption),
      '\r' ∉ (String.intercalate ",\n" (keys.map fun o => (⟨o.key, .boolean true⟩ : LiteralEntry).render)).toList := by
    intro keys
    induction keys with
    | nil => decide
    | cons o keys ih =>
      have hentry : '\r' ∉ (⟨o.key, .boolean true⟩ : LiteralEntry).render.toList := by cases o <;> decide
      cases keys with
      | nil => exact hentry
      | cons o' keys =>
        rw [List.map_cons] at ih
        rw [List.map_cons, List.map_cons, String.intercalate_cons_cons]
        exact hP.append_string (hP.append_string hentry (by decide)) ih
  unfold ResolutionOptions.render
  split
  · decide
  · unfold renderObjectLiteral
    rw [List.map_map]
    exact hP.append_string (hP.append_string (by decide) (hentries os.enabled)) (by decide)

/-- Members are indented with spaces and tabs. -/
theorem memberIndent_hasProperty (hP : IsLineProperty P) (source : List Char) (body : SyntaxNode) :
    P (TypeScript.memberIndent source body).toList := by
  have hblanks : ∀ c ∈ (TypeScript.memberIndent source body).toList, isSpaceOrTab c = true :=
    TypeScript.isSpaceOrTab_memberIndent _ _
  exact hP.unbroken _ (fun h => absurd (hblanks _ h) (by decide)) fun h => absurd (hblanks _ h) (by decide)

end

/-! ## Where edits are made -/

section
variable {parse : Parser} {r : Request} {p : Project} {u : SourceUnit} {tree : SyntaxTree} {cs : List ClassDecl}
  {imports : List TextEdit}

/-- The edits that migrate classes of a file keep its line breaks whole. -/
theorem SourceUnit.IsReadFrom.keepBreaksWhole (hread : u.IsReadFrom tree)
    (himports : ∀ e ∈ imports, e.IsPlain ∧ splitsBreak u.text.toList e.range.stop = false)
    (hcs : ∀ c ∈ cs, ∃ n ∈ tree.root.nodes, TypeScript.readClass? u.path u.text.toList n = some c) :
    KeepBreaksWhole u.text.toList
      (fun offset => insertedBy imports offset ++
        (cs.filter fun c => c.bodyStart = offset).flatMap fun c => (promotedBlock r c).toList)
      (fun offset => removedBy imports offset ||
        cs.any fun c => c.parameterList.start ≤ offset && offset < c.parameterList.stop) where
  inserted := by
    intro n hne
    by_cases hfields : insertedBy imports n = []
    · -- the fields of a class
      rw [hfields, List.nil_append, Ne, List.flatMap_eq_nil_iff] at hne
      obtain ⟨c, hc⟩ := not_forall.mp hne
      obtain ⟨hmem, -⟩ := Classical.not_imp.mp hc
      rw [List.mem_filter, decide_eq_true_eq] at hmem
      obtain ⟨hmem, rfl⟩ := hmem
      obtain ⟨n, hn, hc⟩ := hcs c hmem
      exact TypeScript.bodyStart_whole (hread.placed.of_mem hn) (hread.shaped.of_mem hn) hc
    · -- the import edit, which is made at one offset if it inserts anything
      rw [insertedBy, List.flatMap_eq_nil_iff] at hfields
      obtain ⟨e, hfields⟩ := not_forall.mp hfields
      obtain ⟨hmem, hreplacement⟩ := Classical.not_imp.mp hfields
      rw [List.mem_filter, decide_eq_true_eq] at hmem
      obtain ⟨he, rfl⟩ := hmem
      obtain ⟨hplain, hwhole⟩ := himports e he
      rcases hplain with heq | hnone
      · rwa [heq]
      · rw [hnone] at hreplacement
        exact absurd rfl hreplacement
  removed := by
    intro n hgoes hstays
    rw [Bool.or_eq_false_iff, List.any_eq_false] at hstays
    obtain ⟨hstays, hstays'⟩ := hstays
    rcases Bool.or_eq_true_iff.mp hgoes with hgoes | hgoes
    · -- the modifier of an import
      rw [removedBy, List.any_eq_true] at hgoes
      rw [removedBy, List.any_eq_false] at hstays
      obtain ⟨e, he, hin⟩ := hgoes
      have hout := hstays e he
      simp only [Bool.and_eq_true, decide_eq_true_eq] at hin hout
      have hstop : n + 1 = e.range.stop := by omega
      rw [hstop]
      exact (himports e he).2
    · -- the parameters of a class
      obtain ⟨c, hc, hin⟩ := List.any_eq_true.mp hgoes
      have hout := hstays' c hc
      simp only [Bool.and_eq_true, decide_eq_true_eq] at hin hout
      have hstop : n + 1 = c.parameterList.stop := by omega
      obtain ⟨n, hn, hread'⟩ := hcs c hc
      rw [hstop]
      exact TypeScript.parameterList_stop_whole (hread.placed.of_mem hn) (hread.shaped.of_mem hn) hread'

/-- An import edit of a plan does not end in a line break. -/
theorem importEdits_whole [GlobReader] (hread : u.IsReadFrom tree)
    (hwhole : ∀ n ∈ tree.root.nodes, n.KeepsBreaksWhole u.text.toList)
    (hdistinct : p.HasDistinctPaths) (hmem : u ∈ p.units) {e : TextEdit}
    (he : e ∈ (Plan.ofClasses r (selectedClasses r p.units)).importEdits r u) :
    splitsBreak u.text.toList e.range.stop = false := by
  rw [importEdits_plan hdistinct hmem] at he
  obtain ⟨planned, hplanned, rfl⟩ := List.mem_map.mp he
  obtain ⟨-, -, hamend⟩ := mem_importEdits (mem_importEditsTaken hplanned)
  refine range_amend (P := fun range => splitsBreak u.text.toList range.stop = false) hamend ?_
  intro i hi
  have himport := (List.mem_filter.mp hi).1
  rw [hread.eq] at himport
  obtain ⟨n, hn, hstatement⟩ := TypeScript.mem_imports_readTree himport
  obtain ⟨module, -, rfl⟩ := TypeScript.readImport?_eq_some hstatement
  exact TypeScript.readImport_whole (hread.placed.of_mem hn) (hread.shaped.of_mem hn)
    fun m hm => hwhole m (SyntaxNode.mem_nodes_trans hm hn)

/-! ## All that is inserted -/

theorem insertion_hasProperty {P : List Char → Prop} (hP : IsLineProperty P) {name : String} (hname : P name.toList)
    {place : Insertion} {e : TextEdit} (h : ImportSurface.insertion name place = .ok e) : P e.replacement.toList := by
  cases place with
  | afterLastSpecifier offset =>
    cases h
    exact hP.append_string (hP.unbroken _ (by decide) (by decide)) hname
  | emptyNamedList offset =>
    cases h
    exact hP.append_string (hP.append_string (hP.unbroken _ (by decide) (by decide)) hname)
      (hP.unbroken _ (by decide) (by decide))
  | afterDefaultBinding offset =>
    cases h
    exact hP.append_string (hP.append_string (hP.unbroken _ (by decide) (by decide)) hname)
      (hP.unbroken _ (by decide) (by decide))
  | unsupported reason => cases h

/-- All that is inserted into a file has a property of the texts of its nodes, of the accessor's name, of the options
and of the line ending. -/
theorem inserted_hasProperty {P : List Char → Prop} (hP : IsLineProperty P)
    (htexts : ∀ n ∈ tree.root.nodes, P (n.text u.text.toList).toList)
    (hname : P r.accessorFunction.toList) (himports : ∀ e ∈ imports, P e.replacement.toList)
    (hcs : ∀ c ∈ cs, ∃ n ∈ tree.root.nodes, TypeScript.readClass? u.path u.text.toList n = some c)
    (hoptions : ∀ c ∈ cs, ∀ q ∈ c.parameters, P (ResolutionOptions.ofDecorators q.decorators).render.toList)
    (hending : P (TypeScript.lineEndingOf u.text.toList).text.toList) (offset : Nat) :
    P (insertedBy imports offset ++
      (cs.filter fun c => c.bodyStart = offset).flatMap fun c => (promotedBlock r c).toList) := by
  refine hP.append _ _ (hP.flatMap fun e he => himports e (List.mem_filter.mp he).1) (hP.flatMap fun c hc => ?_)
  have hc' := (List.mem_filter.mp hc).1
  obtain ⟨n, hn, hclass⟩ := hcs c hc'
  have hempty : P "".toList := hP.unbroken _ (by decide) (by decide)
  have hparameters := TypeScript.readClass?_hasTexts (P := fun s => P s.toList) hempty
    (fun m hm => htexts m (SyntaxNode.mem_nodes_trans hm hn)) hclass
  obtain ⟨name, body, -, rfl⟩ := TypeScript.readClass?_eq_some hclass
  exact promotedBlock_hasProperty hP hparameters hname (hoptions _ hc') hending (memberIndent_hasProperty hP _ _)

/-- What the import edits of a plan insert has a property of the accessor's name. -/
theorem importEdits_haveProperty [GlobReader] {P : List Char → Prop} (hP : IsLineProperty P)
    (hname : P r.accessorFunction.toList)
    (hdistinct : p.HasDistinctPaths) (hu : u ∈ p.units) {e : TextEdit}
    (he : e ∈ (Plan.ofClasses r (selectedClasses r p.units)).importEdits r u) : P e.replacement.toList := by
  rw [importEdits_plan hdistinct hu] at he
  obtain ⟨planned, hplanned, rfl⟩ := List.mem_map.mp he
  obtain ⟨-, -, hamend⟩ := mem_importEdits (mem_importEditsTaken hplanned)
  obtain ⟨i, -, -, ⟨s, -, -, hdelete⟩ | ⟨hinsertion, -⟩⟩ := ImportSurface.amend_eq_ok hamend
  · have hempty : P "".toList := hP.unbroken _ (by decide) (by decide)
    rw [hdelete]
    exact hempty
  · exact insertion_hasProperty hP hname hinsertion

/-! ## Files -/

theorem Project.IsParsed.exists_tree_whole (hparsed : p.IsParsed parse) (hplaces : parse.PlacesNodes)
    (hgrammar : parse.FollowsGrammar) (hbreaks : parse.KeepsBreaksWhole) (hu : u ∈ p.units)
    (herrors : u.hasSyntaxErrors = false) :
    ∃ tree, u.IsReadFrom tree ∧ ∀ n ∈ tree.root.nodes, n.KeepsBreaksWhole u.text.toList := by
  obtain ⟨path, relativePath, text, rfl⟩ := hparsed u hu
  exact ⟨parse (TypeScript.grammarOf path) text, ⟨rfl, hplaces _ _ herrors, hgrammar _ _ herrors⟩, hbreaks _ _ herrors⟩

/-- No line break stands in a text. -/
def HasNoBreak (s : String) : Prop := '\n' ∉ s.toList ∧ '\r' ∉ s.toList

instance (s : String) : Decidable (HasNoBreak s) := inferInstanceAs (Decidable (_ ∧ _))

/-- Where line feeds follow carriage returns they do so in the texts of all nodes. -/
theorem SourceUnit.IsReadFrom.feedsFollowReturns_text (hread : u.IsReadFrom tree)
    (hwhole : ∀ n ∈ tree.root.nodes, n.KeepsBreaksWhole u.text.toList)
    (hfeeds : feedsFollowReturns false u.text.toList = true) :
    ∀ n ∈ tree.root.nodes, feedsFollowReturns false (n.text u.text.toList).toList = true :=
  fun n hn => feedsFollowReturns_holds hfeeds (hread.placed n hn).holds (hwhole n hn).start

theorem SourceUnit.IsReadFrom.noReturn_text (hread : u.IsReadFrom tree) (hreturn : '\r' ∉ u.text.toList) :
    ∀ n ∈ tree.root.nodes, '\r' ∉ (n.text u.text.toList).toList := by
  intro n hn hmem
  obtain ⟨before, after, htext, -, -⟩ := (hread.placed n hn).holds
  rw [htext] at hreturn
  exact hreturn (List.mem_append_left _ (List.mem_append_right _ hmem))

theorem Parser.ofFiles_keepsBreaksWhole {f : ParsedFile}
    (h : ∀ n ∈ f.root.nodes, n.KeepsBreaksWhole f.unit.text.toList) : (ofFiles [f]).KeepsBreaksWhole :=
  ofTable_keepsBreaksWhole (List.forall_mem_singleton.mpr h)

/-- **A file keeps its kind of line breaks.** Take a file that was read without errors, by a parser whose nodes stand
where they say, have the shapes of the grammar and cut no line break in two, and let the accessor's name hold no line
break. If the file has line feeds, each of them behind a carriage return, then so it is in the text to which the edits
of a plan lead, where no parameter of a migrated class carries a flag. If the file has no carriage return, that text
has none.
-/
theorem migration_keeps_lineBreaks [GlobReader] (hplaces : parse.PlacesNodes) (hgrammar : parse.FollowsGrammar)
    (hbreaks : parse.KeepsBreaksWhole) {plan : Plan} (hplan : (planProject r p).answer = .ok plan)
    (hdistinct : p.HasDistinctPaths) (hparsed : p.IsParsed parse) (hu : u ∈ p.units)
    (herrors : u.hasSyntaxErrors = false) (hname : HasNoBreak r.accessorFunction) {after : String}
    (happly : plan.log.apply u.path u.text = .ok after) :
    (feedsFollowReturns false u.text.toList = true → '\n' ∈ u.text.toList →
      (∀ c ∈ modifiedClasses r p u, c.HasNoFlags) → feedsFollowReturns false after.toList = true) ∧
    ('\r' ∉ u.text.toList → '\r' ∉ after.toList) := by
  obtain ⟨tree, hread, hwhole⟩ := hparsed.exists_tree_whole hplaces hgrammar hbreaks hu herrors
  have howns := hparsed.ownsClasses
  have hfree := (apply_isOk_iff hplan hdistinct howns hu hread).mp ⟨after, happly⟩
  rw [apply_of_not_isEntangled hplan hdistinct howns hu hread hfree, Except.ok.injEq] at happly
  obtain ⟨-, rfl⟩ := planProject_eq_ok_iff.mp hplan
  have hcs : ∀ c ∈ modifiedClasses r p u,
      ∃ n ∈ tree.root.nodes, TypeScript.readClass? u.path u.text.toList n = some c := by
    intro c hc
    have hmem := (modifiedClasses_sublist hdistinct hu).subset hc
    rw [hread.eq] at hmem
    exact TypeScript.mem_classes_readTree hmem
  have hunbroken : ∀ {P : List Char → Prop}, IsLineProperty P → P r.accessorFunction.toList :=
    fun hP => hP.unbroken _ hname.1 hname.2
  rw [← happly, migratedText, String.toList_ofList]
  constructor
  · -- without flags all that is inserted has the line breaks of the file
    intro hfeeds hfeed hflags
    have hP := isLineProperty_feedsFollowReturns
    refine feedsFollowReturns_weave hfeeds ?_ (hread.keepBreaksWhole ?_ hcs)
    · refine inserted_hasProperty hP (hread.feedsFollowReturns_text hwhole hfeeds) (hunbroken hP)
        (fun e he => importEdits_haveProperty hP (hunbroken hP) hdistinct hu he) hcs ?_ ?_
      · intro c hc q hq
        rw [ResolutionOptions.render, hflags c hc q hq]
        rfl
      · rw [TypeScript.lineEndingOf, firstLineEndsWithReturn_of_feeds hfeeds hfeed]
        rfl
    · intro e he
      exact ⟨(importEdits_spec hdistinct hu).1 e he, importEdits_whole hread hwhole hdistinct hu he⟩
  · -- a carriage return would have been in the file or in what is inserted
    intro hreturn hmem
    have hP := isLineProperty_noReturn
    rcases mem_weave hmem with hmem | ⟨n, hmem⟩
    · exact hreturn hmem
    · refine inserted_hasProperty hP (hread.noReturn_text hreturn) (hunbroken hP)
        (fun e he => importEdits_haveProperty hP (hunbroken hP) hdistinct hu he) hcs ?_ ?_ n hmem
      · intro c hc q hq
        exact render_noReturn _
      · rw [TypeScript.lineEndingOf, firstLineEndsWithReturn_of_not_mem hreturn]
        decide

end

/-- A file of a single line. -/
def singleLine : SourceUnit where
  path := ⟨"/p/a.ts"⟩
  relativePath := ⟨"a.ts"⟩
  text := "import \x7b C \x7d from '@angular/core'; class AComponent \x7b constructor(a: A) \x7b\x7d \x7d"
  classes := [⟨"AComponent", ⟨"/p/a.ts"⟩, ⟨35, 76⟩, 53, "    ", true, .lf,
    some ⟨[⟨"a", .identifier, some "A", false, false, none, [], ⟨66, 70⟩⟩], ⟨66, 70⟩, 0⟩⟩]
  imports := [⟨"@angular/core", ["C"], [], false, ⟨0, 34⟩, .afterLastSpecifier 10⟩]
  hasSyntaxErrors := false

/-- The tree of that file. -/
def singleLineTree : SyntaxNode :=
  .rule "program" none 0 76 [
    .rule "import_statement" none 0 34 [
      .token "import" 0,
      .rule "import_clause" none 7 12 [
        .rule "named_imports" none 7 12 [
          .token "\x7b" 7, .rule "import_specifier" none 9 10 [.rule "identifier" (some "name") 9 10 []],
          .token "\x7d" 11]],
      .token "from" 13,
      .rule "string" (some "source") 18 33 [.token "'" 18, .rule "string_fragment" none 19 32 [], .token "'" 32],
      .token ";" 33],
    .rule "class_declaration" none 35 76 [
      .token "class" 35, .rule "type_identifier" (some "name") 41 51 [],
      .rule "class_body" (some "body") 52 76 [
        .token "\x7b" 52,
        .rule "method_definition" none 54 74 [
          .rule "property_identifier" (some "name") 54 65 [],
          .rule "formal_parameters" (some "parameters") 65 71 [
            .token "(" 65,
            .rule "required_parameter" none 66 70 [
              .rule "identifier" (some "pattern") 66 67 [],
              .rule "type_annotation" (some "type") 67 70 [.token ":" 67, .rule "type_identifier" none 69 70 []]],
            .token ")" 70],
          .rule "statement_block" (some "body") 72 74 [.token "\x7b" 72, .token "\x7d" 73]],
        .token "\x7d" 75]]]

/-- The project of that file. -/
def singleLineProject : Project := ⟨⟨"/p"⟩, [singleLine]⟩

def singleLineFile : ParsedFile where
  unit := singleLine
  root := singleLineTree
  isReadFrom := SourceUnit.isReadFrom_of String.toList_ofList (by decide +kernel)

theorem feedsFollowReturns_singleLine : (∀ n ∈ singleLineTree.nodes, n.KeepsBreaksWhole singleLine.text.toList) ∧
    feedsFollowReturns false singleLine.text.toList = true := by
  rw [show singleLine.text.toList = _ from String.toList_ofList]
  decide +kernel

theorem feedsFollowReturns_migratedSingleLine :
    let r := Request.forRoot ⟨"/p"⟩
    feedsFollowReturns false
      (migratedText r ((Plan.ofClasses r (selectedClasses r singleLineProject.units)).importEdits r singleLine)
        (modifiedClasses r singleLineProject singleLine) singleLine.text).toList = false := by
  intro r
  rw [migratedText, String.toList_ofList, show singleLine.text.toList = _ from String.toList_ofList]
  decide +kernel

/-- In a file without line feeds every one follows a carriage return, and yet its fields are inserted with line feeds
alone. -/
theorem feeds_inserted_in_singleLine :
    let parse := Parser.ofFiles [singleLineFile]
    let r := Request.forRoot ⟨"/p"⟩
    parse.PlacesNodes ∧ parse.FollowsGrammar ∧ parse.KeepsBreaksWhole ∧
      singleLineProject.HasDistinctPaths ∧ singleLineProject.IsParsed parse ∧
      singleLine ∈ singleLineProject.units ∧ singleLine.hasSyntaxErrors = false ∧ HasNoBreak r.accessorFunction ∧
      feedsFollowReturns false singleLine.text.toList = true ∧
      ∃ plan, (planProject r singleLineProject).answer = .ok plan ∧ plan.failures = [] ∧
        ∃ after, plan.log.apply singleLine.path singleLine.text = .ok after ∧
          feedsFollowReturns false after.toList = false := by
  intro parse r
  have hdistinct : singleLineProject.HasDistinctPaths := List.pairwise_singleton _ _
  have hparsed : singleLineProject.IsParsed parse := Parser.isParsed_ofFiles singleLineFile _
  have hu : singleLine ∈ singleLineProject.units := List.mem_singleton.mpr rfl
  obtain ⟨plan, hplan, rfl⟩ := exists_plan (r := r) (by decide +kernel) singleLineProject
  have hfree : ¬ IsEntangled r singleLineProject (.ofClasses r (selectedClasses r singleLineProject.units))
      singleLine := by
    decide +kernel
  have hbreaks : parse.KeepsBreaksWhole := Parser.ofFiles_keepsBreaksWhole feedsFollowReturns_singleLine.1
  exact ⟨Parser.ofFiles_placesNodes, Parser.ofFiles_followsGrammar, hbreaks, hdistinct, hparsed, hu, rfl,
    by decide +kernel, feedsFollowReturns_singleLine.2, _, hplan, by decide +kernel, _,
    apply_of_not_isEntangled hplan hdistinct hparsed.ownsClasses hu singleLineFile.isReadFrom hfree,
    feedsFollowReturns_migratedSingleLine⟩

/-- The tree of a file with one class in another, whose lines end with carriage returns. -/
def nestedClassesTree : SyntaxNode :=
  .rule "program" none 0 190 [
    .rule "import_statement" none 0 42 [
      .token "import" 0,
      .rule "import_clause" none 7 20 [
        .rule "named_imports" none 7 20 [
          .token "\x7b" 7, .rule "import_specifier" none 9 18 [.rule "identifier" (some "name") 9 18 []],
          .token "\x7d" 19]],
      .token "from" 21,
      .rule "string" (some "source") 26 41 [.token "'" 26, .rule "string_fragment" none 27 40 [], .token "'" 40],
      .token ";" 41],
    .rule "class_declaration" none 44 188 [
      .token "class" 44, .rule "type_identifier" (some "name") 50 64 [],
      .rule "class_body" (some "body") 65 188 [
        .token "\x7b" 65,
        .rule "method_definition" none 70 185 [
          .rule "property_identifier" (some "name") 70 81 [],
          .rule "formal_parameters" (some "parameters") 81 127 [
            .token "(" 81, .rule "comment" none 82 90 [],
            .rule "required_parameter" none 91 103 [
              .rule "accessibility_modifier" none 91 98 [.token "private" 91],
              .rule "identifier" (some "pattern") 99 100 [],
              .rule "type_annotation" (some "type") 100 103 [.token ":" 100, .rule "type_identifier" none 102 103 []]],
            .token "," 103,
            .rule "required_parameter" none 110 125 [
              .rule "decorator" (some "decorator") 110 120 [
                .token "@" 110,
                .rule "call_expression" none 111 120 [
                  .rule "identifier" (some "function") 111 117 [],
                  .rule "arguments" (some "arguments") 117 120 [
                    .token "(" 117, .rule "identifier" none 118 119 [], .token ")" 119]]],
              .rule "identifier" (some "pattern") 121 122 [],
              .rule "type_annotation" (some "type") 122 125 [.token ":" 122, .rule "type_identifier" none 124 125 []]],
            .token "," 125, .token ")" 126],
          .rule "statement_block" (some "body") 128 185 [
            .token "\x7b" 128,
            .rule "class_declaration" none 135 180 [
              .token "class" 135, .rule "type_identifier" (some "name") 141 155 [],
              .rule "class_body" (some "body") 156 180 [
                .token "\x7b" 156,
                .rule "method_definition" none 158 178 [
                  .rule "property_identifier" (some "name") 158 169 [],
                  .rule "formal_parameters" (some "parameters") 169 175 [
                    .token "(" 169,
                    .rule "required_parameter" none 170 174 [
                      .rule "identifier" (some "pattern") 170 171 [],
                      .rule "type_annotation" (some "type") 171 174 [
                        .token ":" 171, .rule "type_identifier" none 173 174 []]],
                    .token ")" 174],
                  .rule "statement_block" (some "body") 176 178 [.token "\x7b" 176, .token "\x7d" 177]],
                .token "\x7d" 179]],
            .token "\x7d" 184]],
        .token "\x7d" 187]]]

set_option maxRecDepth 2048 in
def nestedClassesFile : ParsedFile where
  unit := nestedClasses
  root := nestedClassesTree
  isReadFrom := SourceUnit.isReadFrom_of (toList_append_ofList (toList_append_ofList String.toList_ofList)) (by decide +kernel)

set_option maxRecDepth 2048 in
theorem feedsFollowReturns_nestedClasses :
    (∀ n ∈ nestedClassesTree.nodes, n.KeepsBreaksWhole nestedClasses.text.toList) ∧
      feedsFollowReturns false nestedClasses.text.toList = true ∧ '\n' ∈ nestedClasses.text.toList := by
  rw [show nestedClasses.text.toList = _ from toList_append_ofList (toList_append_ofList String.toList_ofList)]
  decide +kernel

/-- The fields of two classes, one in the other, are inserted with carriage returns. -/
theorem migration_keeps_lineBreaks_nestedClasses :
    let parse := Parser.ofFiles [nestedClassesFile]
    let r := Request.forRoot ⟨"/p"⟩
    parse.PlacesNodes ∧ parse.FollowsGrammar ∧ parse.KeepsBreaksWhole ∧
      nestedClassesProject.HasDistinctPaths ∧ nestedClassesProject.IsParsed parse ∧
      nestedClasses ∈ nestedClassesProject.units ∧ nestedClasses.hasSyntaxErrors = false ∧
      HasNoBreak r.accessorFunction ∧ (modifiedClasses r nestedClassesProject nestedClasses).length = 2 ∧
      ∃ plan, (planProject r nestedClassesProject).answer = .ok plan ∧
        ∃ after, plan.log.apply nestedClasses.path nestedClasses.text = .ok after ∧
          feedsFollowReturns false after.toList = true := by
  intro parse r
  have hplaces : parse.PlacesNodes := Parser.ofFiles_placesNodes
  have hgrammar : parse.FollowsGrammar := Parser.ofFiles_followsGrammar
  obtain ⟨hwhole, hfeeds, hfeed⟩ := feedsFollowReturns_nestedClasses
  have hbreaks : parse.KeepsBreaksWhole := Parser.ofFiles_keepsBreaksWhole hwhole
  have hdistinct : nestedClassesProject.HasDistinctPaths := List.pairwise_singleton _ _
  have hparsed : nestedClassesProject.IsParsed parse := Parser.isParsed_ofFiles nestedClassesFile _
  have hu : nestedClasses ∈ nestedClassesProject.units := List.mem_singleton.mpr rfl
  have hname : HasNoBreak r.accessorFunction := by decide +kernel
  obtain ⟨plan, hplan, rfl⟩ := exists_plan (r := r) (by decide +kernel) nestedClassesProject
  have hfree : ¬ IsEntangled r nestedClassesProject
      (.ofClasses r (selectedClasses r nestedClassesProject.units)) nestedClasses := by
    decide +kernel
  obtain ⟨after, happly⟩ :=
    (apply_isOk_iff hplan hdistinct hparsed.ownsClasses hu nestedClassesFile.isReadFrom).mpr hfree
  refine ⟨hplaces, hgrammar, hbreaks, hdistinct, hparsed, hu, rfl, hname, by decide +kernel, _, hplan, after, happly, ?_⟩
  exact (migration_keeps_lineBreaks hplaces hgrammar hbreaks hplan hdistinct hparsed hu rfl hname happly).1
    hfeeds hfeed (by decide +kernel)

end FieldInjection
