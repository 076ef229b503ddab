import FieldInjection.Proofs.TypeScript.Amendments

/-!
# The names that import statements bind

An import statement binds a default name, the name of a namespace, and the local names of a list, as values or as types
(`statementNames`). It binds one name more where a name has been added, and the same names where one has only lost the
keyword `type` (`statementNames_addsName`, `statementNames_takesKeyword`).
-/

namespace FieldInjection.TypeScript

open SyntaxNode

/-- The local names that some nodes of a list bind. -/
def namesOfList (source : List Char) (ns : List SyntaxNode) : List String :=
  (ns.filter isSpecifier).filterMap fun n => (localName? n).map fun name => name.text source

/-- The local names that a part of a clause binds. -/
def namesOfPart (source : List Char) (part : SyntaxNode) : List String :=
  if part.kind = "identifier" then [part.text source]
  else if part.kind = "namespace_import" then
    (part.children.filter fun n => n.kind == "identifier").map fun n => n.text source
  else if part.kind = "named_imports" then namesOfList source part.children
  else []

/-- The local names that a statement binds. -/
def statementNames (source : List Char) (statement : SyntaxNode) : List String :=
  (clauseOf? statement).elim [] fun clause => clause.namedChildren.flatMap (namesOfPart source)

/-- The import statements of a tree. -/
def importStatements (root : SyntaxNode) : List SyntaxNode := root.nodes.filter fun n => n.kind == "import_statement"

/-- The local names that the import statements of a tree bind. -/
def importedNames (source : List Char) (root : SyntaxNode) : List String :=
  (importStatements root).flatMap (statementNames source)

section
variable {source source' : List Char} {name : String} {n n' list list' clause clause' : SyntaxNode}

/-! ## Statements that read alike -/

theorem namesOfList_alike {ns ns' : List SyntaxNode} (h : List.Forall₂ (SyntaxNode.IsAlike source source') ns ns') :
    namesOfList source ns = namesOfList source' ns' :=
  filterMap_eq_of_forall₂ (filter_forall₂ h fun _ _ hcd => isSpecifier_alike hcd)
    fun _ _ hcd => map_eq_of_rel (localName?_alike hcd) fun _ _ hlocal => hlocal.text

theorem namesOfPart_alike (h : SyntaxNode.IsAlike source source' n n') : namesOfPart source n = namesOfPart source' n' := by
  unfold namesOfPart
  rw [h.kind, h.text, namesOfList_alike h.children,
    map_eq_of_forall₂ (filter_forall₂ h.children fun _ _ hcd => by rw [hcd.kind]) fun _ _ hcd => hcd.text]

theorem statementNames_alike (h : SyntaxNode.IsAlike source source' n n') :
    statementNames source n = statementNames source' n' := by
  have hclause : Option.Rel (SyntaxNode.IsAlike source source') (clauseOf? n) (clauseOf? n') :=
    find?_rel h.children fun _ _ hcd => by rw [hcd.kind]
  exact elim_eq_of_rel hclause fun _ _ hcd => flatMap_eq_of_forall₂ hcd.namedChildren fun _ _ hpart => namesOfPart_alike hpart

/-! ## Statements that are amended -/

theorem namesOfList_append (source : List Char) (ns ms : List SyntaxNode) :
    namesOfList source (ns ++ ms) = namesOfList source ns ++ namesOfList source ms := by
  simp [namesOfList]

theorem namesOfList_eq_nil {ns : List SyntaxNode} (h : ∀ m ∈ ns, m.kind ≠ "import_specifier") :
    namesOfList source ns = [] := by
  rw [namesOfList, filter_isSpecifier_eq_nil h]
  rfl

theorem IsNameOf.namesOfList (h : IsNameOf source name n) : TypeScript.namesOfList source [n] = [name] := by
  obtain ⟨m, hlocal, htext⟩ := h.localName?
  simp [TypeScript.namesOfList, h.isSpecifier, hlocal, htext]

theorem GainsName.namesOfList (h : GainsName source source' name list list') :
    TypeScript.namesOfList source' list'.children = TypeScript.namesOfList source list.children ++ [name] := by
  cases h with
  | @intro front separator back added _ _ hlist hseparator hadded hback =>
    obtain ⟨front', back', hchildren', hfront, hback'⟩ := hlist.children'
    have hseparator' : ∀ m ∈ separator, m.kind ≠ "import_specifier" := by
      intro m hm
      rw [(isToken_iff.mp (hseparator m hm).1).2]
      decide
    rw [hlist.children, hchildren']
    simp only [namesOfList_append, ← namesOfList_alike hfront, ← namesOfList_alike hback', hadded.namesOfList,
      namesOfList_eq_nil hseparator', namesOfList_eq_nil hback]
    simp

theorem LosesType.namesOfList (h : LosesType source source' name list list') :
    TypeScript.namesOfList source' list'.children = TypeScript.namesOfList source list.children := by
  cases h with
  | @intro left right specifier specifier' _ _ hlist hkind hnamed hname hkeyword =>
    obtain ⟨left', right', hchildren', hleft, hright⟩ := hlist.children'
    have hspecifier : TypeScript.namesOfList source' [specifier'] = TypeScript.namesOfList source [specifier] := by
      have hlocal := map_eq_of_rel hkeyword.names.1 fun _ _ hcd => hcd.text
      simp [TypeScript.namesOfList, isSpecifier, ← hkeyword.hasLabelOf.kind, ← hkeyword.hasLabelOf.isNamed, hkind, hnamed,
        List.filterMap_cons, hlocal]
    rw [hlist.children, hchildren', ← List.singleton_append, ← List.singleton_append (x := specifier)]
    simp only [namesOfList_append, hspecifier, namesOfList_alike hleft, namesOfList_alike hright]

/-- The names of the parts of a clause, of which one is replaced. -/
theorem flatMap_namesOfPart_replaced {left right : List SyntaxNode}
    (h : ReplacesChild source source' left list list' right clause clause') :
    ∃ before after, clause.namedChildren.flatMap (namesOfPart source) =
        before ++ ((([list].filter isNamed).flatMap (namesOfPart source)) ++ after) ∧
      clause'.namedChildren.flatMap (namesOfPart source') =
        before ++ ((([list'].filter isNamed).flatMap (namesOfPart source')) ++ after) := by
  obtain ⟨left', right', hchildren', hleft, hright⟩ := h.children'
  have halike : ∀ {ns ns' : List SyntaxNode}, List.Forall₂ (SyntaxNode.IsAlike source source') ns ns' →
      (ns.filter isNamed).flatMap (namesOfPart source) = (ns'.filter isNamed).flatMap (namesOfPart source') := fun hns =>
    flatMap_eq_of_forall₂ (filter_forall₂ hns fun _ _ hcd => hcd.isNamed) fun _ _ hcd => namesOfPart_alike hcd
  refine ⟨(left.filter isNamed).flatMap (namesOfPart source), (right.filter isNamed).flatMap (namesOfPart source), ?_, ?_⟩
  · rw [namedChildren, h.children, ← List.singleton_append, List.filter_append, List.filter_append, List.flatMap_append,
      List.flatMap_append]
  · rw [namedChildren, hchildren', ← List.singleton_append, List.filter_append, List.filter_append, List.flatMap_append,
      List.flatMap_append, halike hleft, halike hright]

theorem namesOfPart_list (hkind : list.kind = "named_imports") (hnamed : list.isNamed = true) :
    ([list].filter isNamed).flatMap (namesOfPart source) = TypeScript.namesOfList source list.children := by
  have hfilter : [list].filter isNamed = [list] := by simp [hnamed]
  rw [hfilter, List.flatMap_singleton, namesOfPart, hkind]
  rfl

theorem flatMap_namesOfPart_changed {R : SyntaxNode → SyntaxNode → Prop} (hR : ∀ m m', R m m' → m.HasLabelOf m')
    (h : ChangesList source source' R clause clause') : ∃ before after list list', R list list' ∧
      clause.namedChildren.flatMap (namesOfPart source) =
        before ++ (TypeScript.namesOfList source list.children ++ after) ∧
      clause'.namedChildren.flatMap (namesOfPart source') =
        before ++ (TypeScript.namesOfList source' list'.children ++ after) := by
  cases h with
  | @intro left right list list' _ _ hclause hkind hnamed hleft hlist =>
    have hlabel := hR _ _ hlist
    obtain ⟨before, after, hnames, hnames'⟩ := flatMap_namesOfPart_replaced hclause
    rw [namesOfPart_list hkind hnamed] at hnames
    rw [namesOfPart_list (hlabel.kind ▸ hkind) (hlabel.isNamed ▸ hnamed)] at hnames'
    exact ⟨before, after, list, list', hlist, hnames, hnames'⟩

theorem flatMap_namesOfPart_gainsList (h : GainsList source source' name clause clause') :
    (clause'.namedChildren.flatMap (namesOfPart source')).Perm
      (name :: clause.namedChildren.flatMap (namesOfPart source)) := by
  cases h with
  | @intro front back comma opening added closing list' _ _ hclause hnone hcomma hkind hnamed hchildren hopening hclosing
      hadded =>
    obtain ⟨front', back', hchildren', hfront, hback⟩ := hclause.children'
    have halike : ∀ {ns ns' : List SyntaxNode}, List.Forall₂ (SyntaxNode.IsAlike source source') ns ns' →
        (ns.filter isNamed).flatMap (namesOfPart source) = (ns'.filter isNamed).flatMap (namesOfPart source') := fun hns =>
      flatMap_eq_of_forall₂ (filter_forall₂ hns fun _ _ hcd => hcd.isNamed) fun _ _ hcd => namesOfPart_alike hcd
    -- the comma in front of the new list is no name, and nor are its braces
    have hlist : ([comma, list'].filter isNamed).flatMap (namesOfPart source') = [name] := by
      have hfilter : [comma, list'].filter isNamed = [list'].filter isNamed := by
        simp [(isToken_iff.mp hcomma.1).1]
      have hopening' : TypeScript.namesOfList source' [opening] = [] :=
        namesOfList_eq_nil (by simp [(isToken_iff.mp hopening.1).2])
      have hclosing' : TypeScript.namesOfList source' [closing] = [] :=
        namesOfList_eq_nil (by simp [(isToken_iff.mp hclosing.1).2])
      rw [hfilter, namesOfPart_list hkind hnamed, hchildren, ← List.singleton_append,
        ← List.singleton_append (x := added), namesOfList_append, namesOfList_append, hadded.namesOfList, hopening',
        hclosing']
      rfl
    rw [namedChildren, namedChildren, hclause.children, hchildren']
    simp only [List.filter_append, List.flatMap_append, hlist, ← halike hfront, ← halike hback]
    exact List.perm_middle

/-- A statement to which a name is added binds this name as well. -/
theorem statementNames_addsName (h : ChangesClause source source' (AddsName source source' name) n n') :
    (statementNames source' n').Perm (name :: statementNames source n) := by
  obtain ⟨clause, clause', hclause, hclause', hadds⟩ := h.exists_clauses fun _ _ => hasLabelOf_of_addsName
  rw [statementNames, statementNames, hclause, hclause']
  rcases hadds with h | h
  · obtain ⟨before, after, list, list', hgains, hnames, hnames'⟩ :=
      flatMap_namesOfPart_changed (fun _ _ => GainsName.hasLabelOf) h
    rw [Option.elim_some, Option.elim_some, hnames, hnames', hgains.namesOfList]
    simp only [List.append_assoc, List.singleton_append]
    exact (List.perm_middle.append_left before).trans List.perm_middle
  · exact flatMap_namesOfPart_gainsList h

/-- A statement in which a name loses its keyword binds the same names. -/
theorem statementNames_takesKeyword (h : ChangesClause source source' (TakesKeyword source source' name) n n') :
    statementNames source' n' = statementNames source n := by
  obtain ⟨clause, clause', hclause, hclause', htakes⟩ := h.exists_clauses fun _ _ => hasLabelOf_of_takesKeyword
  obtain ⟨before, after, list, list', hloses, hnames, hnames'⟩ :=
    flatMap_namesOfPart_changed (fun _ _ => LosesType.hasLabelOf) htakes
  rw [statementNames, statementNames, hclause, hclause', Option.elim_some, Option.elim_some, hnames, hnames',
    hloses.namesOfList]

end

/-- What amends the statements that are read from a tree amends one of its import statements. -/
theorem exists_isAmendedBy {path relativePath : Path} {text moduleName name : String} {tree : SyntaxTree} {e : TextEdit}
    (h : ImportSurface.amend name ((readTree path relativePath text tree).importsFrom moduleName) = .ok e) :
    ∃ n ∈ importStatements tree.root, IsAmendedBy text.toList moduleName name e n := by
  obtain ⟨i, hi, hvalue, hcase⟩ := ImportSurface.amend_eq_ok h
  obtain ⟨himport, hmodule⟩ := SourceUnit.mem_importsFrom.mp hi
  obtain ⟨n, hn, hread⟩ := mem_imports_readTree himport
  obtain ⟨module, hof, -⟩ := readImport?_eq_some hread
  exact ⟨n, List.mem_filter.mpr ⟨hn, by simp [hof.kind]⟩, i, hread, hmodule, hvalue, hcase.imp id And.left⟩

end FieldInjection.TypeScript
