import FieldInjection.ImportSurface
import FieldInjection.Proofs.Syntax.Changes
import FieldInjection.Proofs.TypeScript.ImportPlaces
import FieldInjection.Proofs.TypeScript.Likeness

/-!
# Import statements with one name more

What the grammar makes of an import statement to which a name has been added, in its list or behind its default
binding, and of one in which a name has lost the keyword `type` (`FollowsEdit`). The statement then binds this name as a
value, and what it bound before as it did (`readImport?_amended`).
-/

namespace FieldInjection

/-- An import statement with one value more: the name stands at the end, or it has been a type before. -/
structure ImportDecl.GainsValue (name : String) (i j : ImportDecl) : Prop where
  moduleName : i.moduleName = j.moduleName
  isTypeOnly : i.isTypeOnly = j.isTypeOnly
  names : (j.named = i.named ++ [name] ∧
      i.typeOnlyNamed.map TypeSpecifier.name = j.typeOnlyNamed.map TypeSpecifier.name) ∨
    ∃ values values' types types', i.named = values ++ values' ∧ j.named = values ++ name :: values' ∧
      i.typeOnlyNamed.map TypeSpecifier.name = types ++ name :: types' ∧
      j.typeOnlyNamed.map TypeSpecifier.name = types ++ types'

theorem ImportDecl.GainsValue.mem {name : String} {i j : ImportDecl} (h : i.GainsValue name j) : name ∈ j.named := by
  rcases h.names with ⟨hnamed, -⟩ | ⟨values, values', -, -, -, hnamed, -⟩
  · rw [hnamed]
    exact List.mem_append_right _ (List.mem_singleton_self name)
  · rw [hnamed]
    exact List.mem_append_right _ List.mem_cons_self

namespace TypeScript

open SyntaxNode

/-- A name as it is imported, in a list of names. -/
structure IsNameOf (source : List Char) (name : String) (specifier : SyntaxNode) : Prop where
  kind : specifier.kind = "import_specifier"
  isNamed : specifier.isNamed = true
  identifier : ∃ m, specifier.children = [m] ∧ m.kind = "identifier" ∧ m.isNamed = true ∧ m.field? = some "name" ∧
    m.children = [] ∧ m.text source = name

section
variable (source source' : List Char) (name : String)

/-- A list has one more name, behind all others. Where there are others, a comma stands in front of it. -/
inductive GainsName : SyntaxNode → SyntaxNode → Prop
  | intro {front separator back : List SyntaxNode} {added list list' : SyntaxNode}
      (hlist : InsertsChildren source source' front (separator ++ [added]) back list list')
      (hseparator : ∀ m ∈ separator, m.isToken "," = true ∧ m.children = [])
      (hadded : IsNameOf source' name added) (hback : ∀ m ∈ back, m.kind ≠ "import_specifier") : GainsName list list'

/-- A name has no keyword `type` in front of it any more, nor the comments behind this keyword. -/
inductive LosesKeyword : SyntaxNode → SyntaxNode → Prop
  | intro {keyword imported specifier specifier' : SyntaxNode} {comments rest : List SyntaxNode}
      (hlabel : specifier.HasLabelOf specifier')
      (hchildren : specifier.children = keyword :: (comments ++ imported :: rest))
      (hkeyword : keyword.isToken "type" = true ∧ keyword.field? = none ∧ keyword.children = [])
      (hcomments : ∀ m ∈ comments, m.kind = "comment" ∧ m.field? = none ∧ m.children = [])
      (himported : imported.field? = some "name" ∧ imported.isNamed = true)
      (hchildren' : List.Forall₂ (SyntaxNode.IsAlike source source') (imported :: rest) specifier'.children) :
      LosesKeyword specifier specifier'

/-- A list in which one name loses its keyword. -/
inductive LosesType : SyntaxNode → SyntaxNode → Prop
  | intro {left right : List SyntaxNode} {specifier specifier' list list' : SyntaxNode}
      (hlist : ReplacesChild source source' left specifier specifier' right list list')
      (hkind : specifier.kind = "import_specifier") (hnamed : specifier.isNamed = true)
      (hname : ∃ m, localName? specifier = some m ∧ m.text source = name)
      (hkeyword : LosesKeyword source source' specifier specifier') : LosesType list list'

/-- The list of names of a clause is changed. -/
inductive ChangesList (R : SyntaxNode → SyntaxNode → Prop) : SyntaxNode → SyntaxNode → Prop
  | intro {left right : List SyntaxNode} {list list' clause clause' : SyntaxNode}
      (hclause : ReplacesChild source source' left list list' right clause clause')
      (hkind : list.kind = "named_imports") (hnamed : list.isNamed = true)
      (hleft : ∀ m ∈ left, m.kind ≠ "named_imports") (hlist : R list list') : ChangesList R clause clause'

/-- A clause without a list has one behind its default binding, with a single name. -/
inductive GainsList : SyntaxNode → SyntaxNode → Prop
  | intro {front back : List SyntaxNode} {comma opening added closing list' clause clause' : SyntaxNode}
      (hclause : InsertsChildren source source' front [comma, list'] back clause clause')
      (hnone : listOf? clause = none) (hcomma : comma.isToken "," = true ∧ comma.children = [])
      (hkind : list'.kind = "named_imports") (hnamed : list'.isNamed = true)
      (hchildren : list'.children = [opening, added, closing])
      (hopening : opening.isToken "\x7b" = true ∧ opening.children = [])
      (hclosing : closing.isToken "\x7d" = true ∧ closing.children = [])
      (hadded : IsNameOf source' name added) : GainsList clause clause'

/-- What becomes of a clause to which the name is added. -/
def AddsName (clause clause' : SyntaxNode) : Prop :=
  ChangesList source source' (GainsName source source' name) clause clause' ∨ GainsList source source' name clause clause'

/-- What becomes of a clause in which the name loses its keyword. -/
def TakesKeyword (clause clause' : SyntaxNode) : Prop :=
  ChangesList source source' (LosesType source source' name) clause clause'

/-- What becomes of a clause that is amended. -/
def AmendsClause (clause clause' : SyntaxNode) : Prop :=
  AddsName source source' name clause clause' ∨ TakesKeyword source source' name clause clause'

/-- What becomes of a statement whose clause is changed. -/
inductive ChangesClause (R : SyntaxNode → SyntaxNode → Prop) : SyntaxNode → SyntaxNode → Prop
  | intro {left right : List SyntaxNode} {clause clause' statement statement' : SyntaxNode}
      (hstatement : ReplacesChild source source' left clause clause' right statement statement')
      (hkind : clause.kind = "import_clause") (hnamed : clause.isNamed = true) (hfield : clause.field? = none)
      (hleft : ∀ m ∈ left, m.kind ≠ "import_clause") (hclause : R clause clause') : ChangesClause R statement statement'

end

section
variable {source source' : List Char} {name : String} {n n' list list' clause clause' specifier specifier' : SyntaxNode}

/-! ## Names and lists -/

theorem IsNameOf.isSpecifier (h : IsNameOf source name n) : TypeScript.isSpecifier n = true := by
  simp [TypeScript.isSpecifier, h.kind, h.isNamed]

theorem IsNameOf.localName? (h : IsNameOf source name n) :
    ∃ m, TypeScript.localName? n = some m ∧ m.text source = name := by
  obtain ⟨m, hchildren, -, -, hfield, -, htext⟩ := h.identifier
  refine ⟨m, ?_, htext⟩
  simp [TypeScript.localName?, childIn?, hchildren, hfield]

theorem IsNameOf.typeModifier? (h : IsNameOf source name n) : TypeScript.typeModifier? n = none := by
  obtain ⟨m, hchildren, -, hnamed, hfield, -, -⟩ := h.identifier
  simp [TypeScript.typeModifier?, childIn?, hchildren, hfield, isToken, hnamed]

theorem IsNameOf.valueNames (h : IsNameOf source name n) : TypeScript.valueNames source [n] = [name] := by
  obtain ⟨m, hlocal, htext⟩ := h.localName?
  simp [TypeScript.valueNames, h.isSpecifier, valueName?_eq, h.typeModifier?, hlocal, htext]

theorem IsNameOf.typeNames (h : IsNameOf source name n) : TypeScript.typeNames source [n] = [] := by
  simp [TypeScript.typeNames, h.isSpecifier, map_name_typeSpecifier?, h.typeModifier?]

theorem valueNames_append (source : List Char) (ns ms : List SyntaxNode) :
    valueNames source (ns ++ ms) = valueNames source ns ++ valueNames source ms := by
  simp [valueNames]

theorem typeNames_append (source : List Char) (ns ms : List SyntaxNode) :
    typeNames source (ns ++ ms) = typeNames source ns ++ typeNames source ms := by
  simp [typeNames]

theorem filter_isSpecifier_eq_nil {ns : List SyntaxNode} (h : ∀ m ∈ ns, m.kind ≠ "import_specifier") :
    ns.filter isSpecifier = [] := by
  rw [List.filter_eq_nil_iff]
  intro m hm
  simp [isSpecifier, h m hm]

/-- Nothing is imported by what is no name. -/
theorem names_eq_nil (source : List Char) {ns : List SyntaxNode} (h : ∀ m ∈ ns, m.kind ≠ "import_specifier") :
    valueNames source ns = [] ∧ typeNames source ns = [] := by
  simp [valueNames, typeNames, filter_isSpecifier_eq_nil h]

/-- A list that gains a name imports it at the end, as a value. -/
theorem GainsName.names (h : GainsName source source' name list list') :
    valueNames source' list'.children = valueNames source list.children ++ [name] ∧
      typeNames source' list'.children = typeNames source list.children := by
  cases h with
  | @intro front separator back added _ _ hlist hseparator hadded hback =>
    obtain ⟨front', back', hchildren', hfront, hback'⟩ := hlist.children'
    have hseparator' : ∀ m ∈ separator, m.kind ≠ "import_specifier" := by
      intro m hm
      rw [(isToken_iff.mp (hseparator m hm).1).2]
      decide
    obtain ⟨hvalues, htypes⟩ := names_eq_nil source' hseparator'
    obtain ⟨hvaluesBack, htypesBack⟩ := names_eq_nil source hback
    rw [hlist.children, hchildren']
    simp only [valueNames_append, typeNames_append, ← valueNames_alike hfront, ← valueNames_alike hback',
      ← typeNames_alike hfront, ← typeNames_alike hback', hvalues, htypes, hvaluesBack, htypesBack, hadded.valueNames,
      hadded.typeNames]
    simp

theorem childIn?_eq_of_append (field : String) {front rest : List SyntaxNode} (hchildren : n.children = front ++ rest)
    (hfront : ∀ m ∈ front, m.field? = none) : n.childIn? field = rest.find? fun m => m.field? == some field := by
  rw [childIn?, hchildren, List.find?_append, List.find?_eq_none.mpr, Option.none_or]
  intro m hm
  simp [hfront m hm]

theorem LosesKeyword.hasLabelOf (h : LosesKeyword source source' specifier specifier') :
    specifier.HasLabelOf specifier' := by
  cases h with
  | intro hlabel => exact hlabel

/-- A name is the same one without its keyword, and is imported as a value then. -/
theorem LosesKeyword.names (h : LosesKeyword source source' specifier specifier') :
    Option.Rel (SyntaxNode.IsAlike source source') (localName? specifier) (localName? specifier') ∧
      (typeModifier? specifier).isSome = true ∧ typeModifier? specifier' = none := by
  cases h with
  | @intro keyword imported _ _ comments rest hlabel hchildren hkeyword hcomments himported hchildren' =>
    have hfront : ∀ m ∈ keyword :: comments, m.field? = none := by
      intro m hm
      rcases List.mem_cons.mp hm with rfl | hm
      · exact hkeyword.2.1
      · exact (hcomments m hm).2.1
    have hsplit : specifier.children = (keyword :: comments) ++ imported :: rest := hchildren
    have hfield := fun field => childIn?_eq_of_append field hsplit hfront
    have hrel : ∀ field, Option.Rel (SyntaxNode.IsAlike source source') (specifier.childIn? field)
        (specifier'.childIn? field) := by
      intro field
      rw [hfield]
      exact find?_rel hchildren' fun _ _ hcd => by rw [hcd.field?]
    refine ⟨?_, ?_, ?_⟩
    · -- the alias, or else the name: both stand behind the keyword
      unfold localName?
      rcases cases_of_rel (hrel "alias") with ⟨hnone, hnone'⟩ | ⟨a, a', ha, ha', halike⟩
      · rw [hnone, hnone']
        exact hrel "name"
      · rw [ha, ha']
        exact .some halike
    · -- the keyword stands in front of the name
      have hname : specifier.childIn? "name" = some imported := by
        rw [hfield]
        simp [himported.1]
      simp [typeModifier?, hchildren, hname, hkeyword.1]
    · -- the first of its children is the name that is imported, and no token
      obtain ⟨imported', rest', himported', -, hchildren''⟩ := List.forall₂_cons_left_iff.mp hchildren'
      have hnamed : imported'.isNamed = true := himported'.isNamed ▸ himported.2
      unfold typeModifier?
      rw [hchildren'']
      cases specifier'.childIn? "name" <;> simp [isToken, hnamed]

/-- A list in which a name loses its keyword imports it as a value. -/
theorem LosesType.names (h : LosesType source source' name list list') : ∃ values values' types types',
    valueNames source list.children = values ++ values' ∧ valueNames source' list'.children = values ++ name :: values' ∧
      typeNames source list.children = types ++ name :: types' ∧ typeNames source' list'.children = types ++ types' := by
  cases h with
  | @intro left right specifier specifier' _ _ hlist hkind hnamed hname hkeyword =>
    obtain ⟨left', right', hchildren', hleft, hright⟩ := hlist.children'
    obtain ⟨m, hm, htext⟩ := hname
    obtain ⟨hlocal, hmodifier, hnone⟩ := hkeyword.names
    -- without the keyword it is a name still, and the same one
    have hspecifier : isSpecifier specifier = true := by simp [isSpecifier, hkind, hnamed]
    have hspecifier' : isSpecifier specifier' = true := by
      rw [isSpecifier, ← hkeyword.hasLabelOf.kind, ← hkeyword.hasLabelOf.isNamed]
      exact hspecifier
    obtain ⟨m', hlocal', htext'⟩ : ∃ m', localName? specifier' = some m' ∧ m'.text source' = name := by
      rcases cases_of_rel hlocal with ⟨hm', -⟩ | ⟨l, l', hl, hl', halike⟩
      · rw [hm] at hm'
        cases hm'
      · rw [hm] at hl
        obtain rfl := Option.some.inj hl
        exact ⟨l', hl', halike.text ▸ htext⟩
    refine ⟨valueNames source left, valueNames source right, typeNames source left, typeNames source right, ?_⟩
    rw [hlist.children, hchildren', ← List.singleton_append, ← List.singleton_append (x := specifier')]
    simp only [valueNames_append, typeNames_append, ← valueNames_alike hleft, ← valueNames_alike hright,
      ← typeNames_alike hleft, ← typeNames_alike hright]
    -- it is a type before and a value after
    have hvalues : valueNames source [specifier] = [] := by
      simp [valueNames, hspecifier, valueName?_eq, hmodifier]
    have htypes : typeNames source [specifier] = [name] := by
      simp [typeNames, hspecifier, map_name_typeSpecifier?, hmodifier, hm, htext]
    have hvalues' : valueNames source' [specifier'] = [name] := by
      simp [valueNames, hspecifier', valueName?_eq, hnone, hlocal', htext']
    have htypes' : typeNames source' [specifier'] = [] := by
      simp [typeNames, hspecifier', map_name_typeSpecifier?, hnone]
    simp [hvalues, htypes, hvalues', htypes']

theorem GainsName.hasLabelOf (h : GainsName source source' name list list') : list.HasLabelOf list' := by
  cases h with
  | intro hlist => exact hlist.label

theorem LosesType.hasLabelOf (h : LosesType source source' name list list') : list.HasLabelOf list' := by
  cases h with
  | intro hlist => exact hlist.label

/-! ## Clauses and statements -/

theorem listOf?_eq (clause : SyntaxNode) :
    listOf? clause = clause.children.find? fun n => n.isNamed && n.kind == "named_imports" := by
  rw [listOf?, namedChildren, List.find?_filter]
  simp [Bool.beq_eq_decide_eq]

/-- A clause whose list is changed has the changed list. -/
theorem ChangesList.exists_lists {R : SyntaxNode → SyntaxNode → Prop} (hR : ∀ m m', R m m' → m.HasLabelOf m')
    (h : ChangesList source source' R clause clause') :
    ∃ list list', listOf? clause = some list ∧ listOf? clause' = some list' ∧ R list list' := by
  cases h with
  | @intro left right list list' _ _ hclause hkind hnamed hleft hlist =>
    have hfind := hclause.find? (p := fun n => n.isNamed && n.kind == "named_imports")
      (fun _ _ hcd => by rw [hcd.isNamed, hcd.kind]) (fun m hm => by simp [hleft m hm]) (by simp [hkind, hnamed])
      (by simp [← (hR _ _ hlist).kind, ← (hR _ _ hlist).isNamed, hkind, hnamed])
    rw [listOf?_eq, listOf?_eq]
    exact ⟨list, list', hfind.1, hfind.2, hlist⟩

/-- A clause that gains a list has that list, in which stands the name alone. -/
theorem GainsList.names (h : GainsList source source' name clause clause') : listOf? clause = none ∧
    ∃ list', listOf? clause' = some list' ∧ valueNames source' list'.children = [name] ∧
      typeNames source' list'.children = [] := by
  cases h with
  | @intro front back comma opening added closing list' _ _ hclause hnone hcomma hkind hnamed hchildren hopening hclosing
      hadded =>
    refine ⟨hnone, list', ?_, ?_⟩
    · rw [listOf?_eq] at hnone ⊢
      rw [hclause.find? (fun _ _ hcd => by rw [hcd.isNamed, hcd.kind]) hnone]
      simp [(isToken_iff.mp hcomma.1).1, hkind, hnamed]
    · have hfront : ∀ m ∈ [opening], m.kind ≠ "import_specifier" := by
        simp [(isToken_iff.mp hopening.1).2]
      have hback : ∀ m ∈ [closing], m.kind ≠ "import_specifier" := by
        simp [(isToken_iff.mp hclosing.1).2]
      rw [hchildren, ← List.singleton_append, ← List.singleton_append (x := added)]
      simp only [valueNames_append, typeNames_append, (names_eq_nil source' hfront).1, (names_eq_nil source' hfront).2,
        (names_eq_nil source' hback).1, (names_eq_nil source' hback).2, hadded.valueNames, hadded.typeNames]
      simp

theorem hasLabelOf_of_addsName (h : AddsName source source' name clause clause') : clause.HasLabelOf clause' := by
  rcases h with h | h
  · cases h with
    | intro hclause => exact hclause.label
  · cases h with
    | intro hclause => exact hclause.label

theorem hasLabelOf_of_takesKeyword (h : TakesKeyword source source' name clause clause') :
    clause.HasLabelOf clause' := by
  cases h with
  | intro hclause => exact hclause.label

theorem hasLabelOf_of_amendsClause (h : AmendsClause source source' name clause clause') : clause.HasLabelOf clause' :=
  h.elim hasLabelOf_of_addsName hasLabelOf_of_takesKeyword

theorem ChangesClause.mono {R Q : SyntaxNode → SyntaxNode → Prop} (hRQ : ∀ m m', R m m' → Q m m')
    (h : ChangesClause source source' R n n') : ChangesClause source source' Q n n' := by
  cases h with
  | intro hstatement hkind hnamed hfield hleft hclause =>
    exact .intro hstatement hkind hnamed hfield hleft (hRQ _ _ hclause)

/-- A statement whose clause is changed has the changed clause. -/
theorem ChangesClause.exists_clauses {R : SyntaxNode → SyntaxNode → Prop} (hR : ∀ m m', R m m' → m.HasLabelOf m')
    (h : ChangesClause source source' R n n') :
    ∃ clause clause', clauseOf? n = some clause ∧ clauseOf? n' = some clause' ∧ R clause clause' := by
  cases h with
  | @intro left right clause clause' _ _ hstatement hkind hnamed hfield hleft hclause =>
    have hfind := hstatement.find? (p := fun n => n.kind == "import_clause") (fun _ _ hcd => by rw [hcd.kind])
      (fun m hm => by simp [hleft m hm]) (by simp [hkind]) (by simp [← (hR _ _ hclause).kind, hkind])
    exact ⟨clause, clause', hfind.1, hfind.2, hclause⟩

/-- What a statement has besides its clause stays. -/
theorem ChangesClause.rest {R : SyntaxNode → SyntaxNode → Prop} (hR : ∀ m m', R m m' → m.HasLabelOf m')
    (h : ChangesClause source source' R n n') : n.HasLabelOf n' ∧
      Option.Rel (SyntaxNode.IsAlike source source') (n.childIn? "source") (n'.childIn? "source") ∧
      n.children.any (·.isToken "type") = n'.children.any (·.isToken "type") := by
  cases h with
  | @intro left right clause clause' _ _ hstatement hkind hnamed hfield hleft hclause =>
    have hlabel := hR _ _ hclause
    refine ⟨hstatement.label, ?_, ?_⟩
    · exact hstatement.find?_rel (p := fun m => m.field? == some "source") (fun _ _ hcd => by rw [hcd.field?])
        (by simp [hfield]) (by simp [← hlabel.field?, hfield])
    · obtain ⟨left', right', hchildren', hleft', hright'⟩ := hstatement.children'
      have hnone : clause.isToken "type" = false := by simp [isToken, hnamed]
      have hnone' : clause'.isToken "type" = false := by simp [isToken, ← hlabel.isNamed, hnamed]
      rw [hstatement.children, hchildren', List.any_append, List.any_append, List.any_cons, List.any_cons, hnone, hnone',
        any_eq_of_forall₂ hleft' fun _ _ hcd => hcd.isToken "type",
        any_eq_of_forall₂ hright' fun _ _ hcd => hcd.isToken "type"]

/-- A statement that is amended imports one value more. -/
theorem gainsValue_readImport {module module' : SyntaxNode}
    (h : ChangesClause source source' (AmendsClause source source' name) n n')
    (hmodule : SyntaxNode.IsAlike source source' module module') :
    (readImport source n module).GainsValue name (readImport source' n' module') := by
  obtain ⟨clause, clause', hclause, hclause', hamends⟩ := h.exists_clauses fun _ _ => hasLabelOf_of_amendsClause
  refine ⟨congrArg unquote hmodule.text, (h.rest fun _ _ => hasLabelOf_of_amendsClause).2.2, ?_⟩
  simp only [readImport_named, readImport_typeOnlyNamed, nameList?, hclause, hclause', Option.bind_some]
  rcases hamends with (h | h) | h
  · -- the name goes into the list that is there
    obtain ⟨list, list', hlist, hlist', hgains⟩ := h.exists_lists fun _ _ => GainsName.hasLabelOf
    obtain ⟨hvalues, htypes⟩ := hgains.names
    rw [hlist, hlist']
    exact Or.inl ⟨hvalues, htypes.symm⟩
  · -- there was none
    obtain ⟨hnone, list', hlist', hvalues, htypes⟩ := h.names
    rw [hnone, hlist']
    exact Or.inl ⟨hvalues, htypes.symm⟩
  · -- the name is in the list, and loses its keyword
    obtain ⟨list, list', hlist, hlist', hloses⟩ := h.exists_lists fun _ _ => LosesType.hasLabelOf
    rw [hlist, hlist']
    exact Or.inr hloses.names

theorem moduleOf?_changesClause {R : SyntaxNode → SyntaxNode → Prop} (hR : ∀ m m', R m m' → m.HasLabelOf m')
    (h : ChangesClause source source' R n n') :
    Option.Rel (SyntaxNode.IsAlike source source') (moduleOf? n) (moduleOf? n') := by
  obtain ⟨hlabel, hsource, -⟩ := h.rest hR
  unfold moduleOf?
  rw [hlabel.kind]
  split
  · rcases cases_of_rel hsource with ⟨hnone, hnone'⟩ | ⟨m, m', hm, hm', halike⟩
    · rw [hnone, hnone']
      exact .none
    · simp only [hm, hm', Option.filter_some, halike.kind]
      split
      · exact .some halike
      · exact .none
  · exact .none

/-- A statement of a module that is amended is one of the same module, and imports one value more. -/
theorem readImport?_amended {i : ImportDecl} (h : ChangesClause source source' (AmendsClause source source' name) n n')
    (hi : readImport? source n = some i) : ∃ i', readImport? source' n' = some i' ∧ i.GainsValue name i' := by
  obtain ⟨module, hmodule, rfl⟩ := Option.map_eq_some_iff.mp hi
  rcases cases_of_rel (moduleOf?_changesClause (fun _ _ => hasLabelOf_of_amendsClause) h) with
    ⟨hnone, -⟩ | ⟨m, m', hm, hm', halike⟩
  · rw [hmodule] at hnone
    cases hnone
  · rw [hmodule] at hm
    obtain rfl := Option.some.inj hm
    exact ⟨_, by rw [readImport?, hm']; rfl, gainsValue_readImport h halike⟩

/-! ## What else is found in amended statements -/

/-- The nodes of an import statement of which nothing but the statement's names is made. -/
def partKinds : List String :=
  ["import_clause", "named_imports", "import_specifier", "identifier", "comment", "type", ",", "\x7b", "\x7d"]

/-- Something is read of nodes that read alike, and nothing of the parts of an import statement. -/
structure PassesOverParts {α β : Type} (source source' : List Char) (P : α → β → Prop) (f : SyntaxNode → Option α)
    (f' : SyntaxNode → Option β) : Prop where
  alike : ∀ m m', SyntaxNode.IsAlike source source' m m' → Option.Rel P (f m) (f' m')
  part : ∀ m, m.kind ∈ partKinds → f m = none
  part' : ∀ m, m.kind ∈ partKinds → f' m = none

section
variable {α β : Type} {P : α → β → Prop} {f : SyntaxNode → Option α} {f' : SyntaxNode → Option β}

theorem PassesOverParts.self (hf : PassesOverParts source source' P f f') (hlabel : n.HasLabelOf n')
    (hpart : n.kind ∈ partKinds) : Option.Rel P (f n) (f' n') := by
  rw [hf.part n hpart, hf.part' n' (hlabel.kind ▸ hpart)]
  exact .none

theorem filterMap_parts {ns : List SyntaxNode} (hf : ∀ m, m.kind ∈ partKinds → f m = none)
    (h : ∀ m ∈ ns, m.kind ∈ partKinds ∧ m.children = []) : (nodesOfList ns).filterMap f = [] := by
  induction ns with
  | nil => rfl
  | cons n ns ih =>
    obtain ⟨hpart, hchildren⟩ := h n List.mem_cons_self
    rw [nodesOfList_cons, List.filterMap_append, filterMap_nodes, hf n hpart, hchildren,
      ih fun m hm => h m (List.mem_cons_of_mem n hm)]
    rfl

theorem kind_mem_of_isToken {m : SyntaxNode} {spelling : String} (h : m.isToken spelling = true)
    (hspelling : spelling ∈ partKinds) : m.kind ∈ partKinds := by
  rwa [(isToken_iff.mp h).2]

theorem IsNameOf.filterMap_nodes (h : IsNameOf source name n) (hf : ∀ m, m.kind ∈ partKinds → f m = none) :
    n.nodes.filterMap f = [] := by
  obtain ⟨m, hchildren, hkind, -, -, hnone, -⟩ := h.identifier
  have hself : f n = none := hf n (by rw [h.kind]; decide)
  have hidentifier : (nodesOfList [m]).filterMap f = [] :=
    filterMap_parts hf fun k hk => by
      obtain rfl := List.mem_singleton.mp hk
      exact ⟨by rw [hkind]; decide, hnone⟩
  rw [SyntaxNode.filterMap_nodes, hself, hchildren, hidentifier]
  rfl

/-- In a list that gains a name the same is found. -/
theorem GainsName.filterMap_nodes (h : GainsName source source' name list list') (hkind : list.kind = "named_imports")
    (hf : PassesOverParts source source' P f f') :
    List.Forall₂ P (list.nodes.filterMap f) (list'.nodes.filterMap f') := by
  cases h with
  | @intro front separator back added _ _ hlist hseparator hadded hback =>
    refine filterMap_nodes_rel (hf.self hlist.label (by rw [hkind]; decide)) (hlist.filterMap_children hf.alike ?_)
    have hseparator' : (nodesOfList separator).filterMap f' = [] := filterMap_parts hf.part' fun m hm =>
      ⟨kind_mem_of_isToken (hseparator m hm).1 (by decide), (hseparator m hm).2⟩
    rw [nodesOfList_append, List.filterMap_append, hseparator', nodesOfList_cons, nodesOfList_nil, List.append_nil,
      hadded.filterMap_nodes hf.part']
    rfl

/-- In a name that loses its keyword the same is found. -/
theorem LosesKeyword.filterMap_nodes (h : LosesKeyword source source' specifier specifier')
    (hkind : specifier.kind = "import_specifier") (hf : PassesOverParts source source' P f f') :
    List.Forall₂ P (specifier.nodes.filterMap f) (specifier'.nodes.filterMap f') := by
  cases h with
  | @intro keyword imported _ _ comments rest hlabel hchildren hkeyword hcomments himported hchildren' =>
    refine filterMap_nodes_rel (hf.self hlabel (by rw [hkind]; decide)) ?_
    -- nothing is found in the keyword and the comments behind it
    have hdropped : (nodesOfList (keyword :: comments)).filterMap f = [] := by
      refine filterMap_parts hf.part fun m hm => ?_
      rcases List.mem_cons.mp hm with rfl | hm
      · exact ⟨kind_mem_of_isToken hkeyword.1 (by decide), hkeyword.2.2⟩
      · exact ⟨by rw [(hcomments m hm).1]; decide, (hcomments m hm).2.2⟩
    rw [hchildren, ← List.cons_append, nodesOfList_append, List.filterMap_append, hdropped, List.nil_append]
    exact filterMap_nodesOfList_alike hf.alike hchildren'

theorem LosesType.filterMap_nodes (h : LosesType source source' name list list') (hkind : list.kind = "named_imports")
    (hf : PassesOverParts source source' P f f') :
    List.Forall₂ P (list.nodes.filterMap f) (list'.nodes.filterMap f') := by
  cases h with
  | intro hlist hspecifier _ _ hkeyword =>
    exact filterMap_nodes_rel (hf.self hlist.label (by rw [hkind]; decide))
      (hlist.filterMap_children hf.alike (hkeyword.filterMap_nodes hspecifier hf))

theorem ChangesList.filterMap_nodes {R : SyntaxNode → SyntaxNode → Prop}
    (hR : ∀ list list', R list list' → list.kind = "named_imports" →
      List.Forall₂ P (list.nodes.filterMap f) (list'.nodes.filterMap f'))
    (h : ChangesList source source' R clause clause') (hkind : clause.kind = "import_clause")
    (hf : PassesOverParts source source' P f f') :
    List.Forall₂ P (clause.nodes.filterMap f) (clause'.nodes.filterMap f') := by
  cases h with
  | intro hclause hkindList _ _ hlist =>
    exact filterMap_nodes_rel (hf.self hclause.label (by rw [hkind]; decide))
      (hclause.filterMap_children hf.alike (hR _ _ hlist hkindList))

/-- In a clause that gains a list the same is found. -/
theorem GainsList.filterMap_nodes (h : GainsList source source' name clause clause')
    (hkind : clause.kind = "import_clause") (hf : PassesOverParts source source' P f f') :
    List.Forall₂ P (clause.nodes.filterMap f) (clause'.nodes.filterMap f') := by
  cases h with
  | @intro front back comma opening added closing list' _ _ hclause _ hcomma hkindList _ hchildren hopening hclosing
      hadded =>
    refine filterMap_nodes_rel (hf.self hclause.label (by rw [hkind]; decide)) (hclause.filterMap_children hf.alike ?_)
    have hmark : ∀ m : SyntaxNode, ∀ spelling ∈ partKinds, m.isToken spelling = true → m.children = [] →
        m.nodes.filterMap f' = [] := by
      intro m spelling hspelling htoken hnone
      rw [SyntaxNode.filterMap_nodes, hf.part' m (kind_mem_of_isToken htoken hspelling), hnone]
      rfl
    have hlist : f' list' = none := hf.part' list' (by rw [hkindList]; decide)
    simp only [nodesOfList_cons, nodesOfList_nil, List.append_nil, List.filterMap_append,
      hmark comma "," (by decide) hcomma.1 hcomma.2, List.nil_append]
    rw [SyntaxNode.filterMap_nodes, hlist, hchildren]
    simp only [nodesOfList_cons, nodesOfList_nil, List.append_nil, List.filterMap_append,
      hmark opening "\x7b" (by decide) hopening.1 hopening.2, hmark closing "\x7d" (by decide) hclosing.1 hclosing.2,
      hadded.filterMap_nodes hf.part']
    rfl

/-- In a clause that is amended the same is found. -/
theorem filterMap_nodes_amended (h : AmendsClause source source' name clause clause')
    (hkind : clause.kind = "import_clause") (hf : PassesOverParts source source' P f f') :
    List.Forall₂ P (clause.nodes.filterMap f) (clause'.nodes.filterMap f') := by
  rcases h with (h | h) | h
  · exact h.filterMap_nodes (fun _ _ hlist hkindList => hlist.filterMap_nodes hkindList hf) hkind hf
  · exact h.filterMap_nodes hkind hf
  · exact h.filterMap_nodes (fun _ _ hlist hkindList => hlist.filterMap_nodes hkindList hf) hkind hf

/-- Below a statement that is amended the same is found. -/
theorem ChangesClause.filterMap_children (h : ChangesClause source source' (AmendsClause source source' name) n n')
    (hf : PassesOverParts source source' P f f') :
    List.Forall₂ P ((nodesOfList n.children).filterMap f) ((nodesOfList n'.children).filterMap f') := by
  cases h with
  | intro hstatement hkind _ _ _ hclause =>
    exact hstatement.filterMap_children hf.alike (filterMap_nodes_amended hclause hkind hf)

end

/-! ## Edits -/

/-- The edit amends the statement, which is one of the module that imports values. -/
def IsAmendedBy (source : List Char) (moduleName name : String) (e : TextEdit) (statement : SyntaxNode) : Prop :=
  ∃ i, readImport? source statement = some i ∧ i.moduleName = moduleName ∧ i.isTypeOnly = false ∧
    ImportSurface.IsAmendment name i e

/-- The edit writes the name into a statement at a place where the grammar has one name more, or it takes out the
keyword with which the statement imports the name. -/
inductive IsWrittenIn (source : List Char) (name : String) (statement : SyntaxNode) : TextEdit → Prop
  | behindLast {list last : SyntaxNode} (hlist : nameList? statement = some list)
      (hlast : (list.children.filter isSpecifier).getLast? = some last) :
      IsWrittenIn source name statement (.insert last.stop (", " ++ name))
  | alone {list : SyntaxNode} (hlist : nameList? statement = some list) (hnone : list.children.filter isSpecifier = []) :
      IsWrittenIn source name statement (.insert (list.start + 1) (" " ++ name ++ " "))
  | behindDefault {clause binding : SyntaxNode} (hclause : clauseOf? statement = some clause)
      (hlist : listOf? clause = none) (hnamespace : ∀ m ∈ clause.namedChildren, m.kind ≠ "namespace_import")
      (hbinding : (clause.namedChildren.find? fun m => m.kind == "identifier") = some binding) :
      IsWrittenIn source name statement (.insert binding.stop (", \x7b " ++ name ++ " \x7d"))
  | withoutKeyword {list specifier keyword imported bound : SyntaxNode} {range : TextRange}
      (hlist : nameList? statement = some list) (hspecifier : specifier ∈ list.children.filter isSpecifier)
      (hmodifier : IsModifierOf specifier keyword imported range) (hbound : localName? specifier = some bound)
      (htext : bound.text source = name) : IsWrittenIn source name statement (.delete range)

/-- A clause has a list, or a default binding to which one can be added, or nothing can be added to it. -/
theorem readClause_cases (source : List Char) (clause : SyntaxNode) :
    (∃ list, listOf? clause = some list ∧ readClause source clause = readList source list) ∨
      listOf? clause = none ∧ (readClause source clause).typeOnlyNamed = [] ∧
        ((∃ reason, (readClause source clause).insertion = .unsupported reason) ∨
          (∀ m ∈ clause.namedChildren, m.kind ≠ "namespace_import") ∧ ∃ binding,
            (clause.namedChildren.find? fun m => m.kind == "identifier") = some binding ∧
              (readClause source clause).insertion = .afterDefaultBinding binding.stop) := by
  unfold readClause listOf?
  split
  · rename_i list hlist
    exact Or.inl ⟨list, hlist, rfl⟩
  · rename_i hlist
    refine Or.inr ⟨hlist, ?_⟩
    split
    · exact ⟨rfl, Or.inl ⟨_, rfl⟩⟩
    · rename_i hnamespace
      split
      · rename_i binding hbinding
        refine ⟨rfl, Or.inr ⟨fun m hm hkind => hnamespace ?_, binding, hbinding, rfl⟩⟩
        exact List.any_eq_true.mpr ⟨m, hm, by simp [hkind]⟩
      · exact ⟨rfl, Or.inl ⟨_, rfl⟩⟩

/-- What amends a list writes the name behind its last name, or between its braces, or takes out a keyword. -/
theorem isWrittenIn_of_readList {e : TextEdit} (hlist : nameList? n = some list)
    (h : (∃ s ∈ (readList source list).typeOnlyNamed, s.name = name ∧ e = .delete s.modifier) ∨
      ImportSurface.insertion name (readList source list).insertion = .ok e) : IsWrittenIn source name n e := by
  rw [readList, specifiers_eq] at h
  rcases h with ⟨s, hs, rfl, rfl⟩ | h
  · obtain ⟨specifier, hspecifier, hs⟩ := List.mem_filterMap.mp hs
    obtain ⟨bound, keyword, imported, hbound, htext, hmodifier⟩ := typeSpecifier?_eq_some hs
    exact .withoutKeyword hlist hspecifier hmodifier hbound htext.symm
  · cases hlast : (list.children.filter isSpecifier).getLast? with
    | some last =>
      rw [hlast] at h
      obtain rfl := Except.ok.inj h
      exact .behindLast hlist hlast
    | none =>
      rw [hlast] at h
      obtain rfl := Except.ok.inj h
      exact .alone hlist (List.getLast?_eq_none_iff.mp hlast)

/-- What amends a statement is written in it. -/
theorem isWrittenIn_of_isAmendedBy {moduleName : String} {e : TextEdit}
    (h : IsAmendedBy source moduleName name e n) : IsWrittenIn source name n e := by
  obtain ⟨i, hi, -, -, hamends⟩ := h
  obtain ⟨module, -, rfl⟩ := readImport?_eq_some hi
  cases hclause : clauseOf? n with
  | none =>
    rcases hamends with ⟨s, hs, -⟩ | hinsertion
    · simp [readImport, hclause, ImportClause.sideEffect, ImportClause.unsupported] at hs
    · simp [readImport, hclause, ImportClause.sideEffect, ImportClause.unsupported, ImportSurface.insertion] at hinsertion
  | some clause =>
    -- what is read of the statement comes from its clause
    have hlists : nameList? n = listOf? clause := by
      rw [nameList?, hclause]
      rfl
    have hread : (∃ s ∈ (readClause source clause).typeOnlyNamed, s.name = name ∧ e = .delete s.modifier) ∨
        ImportSurface.insertion name (readClause source clause).insertion = .ok e := by
      simpa [ImportSurface.IsAmendment, readImport, hclause] using hamends
    rcases readClause_cases source clause with ⟨list, hlist, heq⟩ | ⟨hlist, htypes, hinsertion⟩
    · exact isWrittenIn_of_readList (hlists.trans hlist) (heq ▸ hread)
    · rw [htypes] at hread
      rcases hread with ⟨s, hs, -⟩ | hread
      · cases hs
      · rcases hinsertion with ⟨reason, hreason⟩ | ⟨hnamespace, binding, hbinding, hplace⟩
        · rw [hreason] at hread
          cases hread
        · rw [hplace] at hread
          obtain rfl := Except.ok.inj hread
          exact .behindDefault hclause hlist hnamespace hbinding

/-- A statement has become what the grammar makes of it by the edit: without a replacement this takes out the keyword of
the name, and else it adds the name. -/
def FollowsEdit (source source' : List Char) (name : String) (e : TextEdit) (statement statement' : SyntaxNode) : Prop :=
  ChangesClause source source'
    (if e.replacement = "" then TakesKeyword source source' name else AddsName source source' name) statement statement'

theorem followsEdit_of_addsName {e : TextEdit} (hadds : e.replacement ≠ "")
    (h : ChangesClause source source' (AddsName source source' name) n n') : FollowsEdit source source' name e n n' := by
  rw [FollowsEdit, if_neg hadds]
  exact h

theorem FollowsEdit.amends {e : TextEdit} (h : FollowsEdit source source' name e n n') :
    ChangesClause source source' (AmendsClause source source' name) n n' := by
  refine ChangesClause.mono ?_ h
  intro m m' hm
  split at hm
  · exact Or.inr hm
  · exact Or.inl hm

/-- An amended statement binds the name as a value. -/
theorem exists_binds_of_isAmendedBy {moduleName : String} {e : TextEdit} (h : IsAmendedBy source moduleName name e n)
    (hfollows : FollowsEdit source source' name e n n') :
    ∃ i', readImport? source' n' = some i' ∧ i'.moduleName = moduleName ∧ i'.binds name = true := by
  obtain ⟨i, hi, hmodule, hvalue, -⟩ := h
  obtain ⟨i', hi', hgains⟩ := readImport?_amended hfollows.amends hi
  refine ⟨i', hi', hgains.moduleName ▸ hmodule, ?_⟩
  simp [ImportDecl.binds, ← hgains.isTypeOnly, hvalue, hgains.mem]

end

end TypeScript

end FieldInjection
