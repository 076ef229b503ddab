import FieldInjection.Proofs.Syntax.Likeness
import FieldInjection.Proofs.TypeScript.Reading

/-!
# What is read from nodes that are alike

What is read from a node depends on the node and the text in it. So parameters, constructors, classes and import
statements that are read from nodes that are alike differ in nothing but their places.
-/

namespace FieldInjection

/-- Two parameters differ in nothing but their places. -/
def Parameter.IsAlike (p q : Parameter) : Prop := { p with range := q.range } = q

/-- Two constructors have the same parameters, wherever they stand. -/
structure Constructor.IsAlike (k k' : Constructor) : Prop where
  parameters : List.Forall₂ Parameter.IsAlike k.parameters k'.parameters
  overloads : k.overloads = k'.overloads

/-- Two classes have the same name and alike constructors. -/
structure ClassDecl.IsAlike (c d : ClassDecl) : Prop where
  name : c.name = d.name
  constructor? : Option.Rel Constructor.IsAlike c.constructor? d.constructor?

/-- Two import statements import the same in the same way. -/
structure ImportDecl.IsAlike (i j : ImportDecl) : Prop where
  moduleName : i.moduleName = j.moduleName
  named : i.named = j.named
  typeOnlyNamed : i.typeOnlyNamed.map TypeSpecifier.name = j.typeOnlyNamed.map TypeSpecifier.name
  isTypeOnly : i.isTypeOnly = j.isTypeOnly

namespace TypeScript

open SyntaxNode

section
variable {source source' : List Char} {n n' : SyntaxNode} {file file' : Path}

/-! ## Parameters -/

theorem argumentTexts_alike (h : SyntaxNode.IsAlike source source' n n') :
    argumentTexts source n = argumentTexts source' n' :=
  map_eq_of_forall₂ (filter_forall₂ h.namedChildren fun _ _ hcd => by rw [hcd.isComment]) fun _ _ hcd => hcd.text

theorem decoratorKind_alike (h : SyntaxNode.IsAlike source source' n n') :
    decoratorKind source n = decoratorKind source' n' := by
  unfold decoratorKind
  rcases cases_of_rel (head?_rel h.namedChildren) with ⟨hnone, hnone'⟩ | ⟨e, e', he, he', halike⟩
  · rw [hnone, hnone']
  · simp only [he, he']
    rw [halike.kind, halike.text, elim_eq_of_rel (halike.childIn? "function") fun _ _ hcd => hcd.text,
      elim_eq_of_rel (halike.childIn? "arguments") fun _ _ hcd => argumentTexts_alike hcd]

theorem readDecorator_alike (h : SyntaxNode.IsAlike source source' n n') :
    readDecorator source n = readDecorator source' n' := by
  rw [readDecorator, readDecorator, h.text, decoratorKind_alike h]

theorem readPattern_alike (h : SyntaxNode.IsAlike source source' n n') : readPattern source n = readPattern source' n' := by
  unfold readPattern
  rcases cases_of_rel (h.childIn? "pattern") with ⟨hnone, hnone'⟩ | ⟨e, e', he, he', halike⟩
  · rw [hnone, hnone']
  · simp only [he, he']
    rw [halike.kind, halike.text, elim_eq_of_rel (head?_rel halike.namedChildren) fun _ _ hcd => hcd.text]

theorem readType_alike (h : SyntaxNode.IsAlike source source' n n') : readType source n = readType source' n' := by
  unfold readType
  rcases cases_of_rel (h.childIn? "type") with ⟨hnone, hnone'⟩ | ⟨e, e', he, he', halike⟩
  · rw [hnone, hnone']
    rfl
  · rw [he, he']
    exact map_eq_of_rel (head?_rel halike.namedChildren) fun _ _ hcd => hcd.text

theorem scope_alike {parts parts' : List SyntaxNode} (h : List.Forall₂ (SyntaxNode.IsAlike source source') parts parts')
    (scope : Option Scope) :
    parts.foldl (fun scope part => (Scope.ofKeyword? (part.text source)).or scope) scope =
      parts'.foldl (fun scope part => (Scope.ofKeyword? (part.text source')).or scope) scope := by
  induction h generalizing scope with
  | nil => rfl
  | cons hpart _ ih => rw [List.foldl_cons, List.foldl_cons, hpart.text, ih]

theorem readParameter_alike (h : SyntaxNode.IsAlike source source' n n') :
    (readParameter source n).IsAlike (readParameter source' n') := by
  have hkind : ∀ kind : String, n.children.any (·.kind == kind) = n'.children.any (·.kind == kind) := fun kind =>
    any_eq_of_forall₂ h.children fun _ _ hcd => by rw [hcd.kind]
  have hparts : ∀ kind : String, List.Forall₂ (SyntaxNode.IsAlike source source')
      (n.children.filter (·.kind == kind)) (n'.children.filter (·.kind == kind)) := fun kind =>
    filter_forall₂ h.children fun _ _ hcd => by rw [hcd.kind]
  rw [readParameter_eq, readParameter_eq, Parameter.IsAlike, readPattern_alike h, readType_alike h, hkind, hkind,
    scope_alike (hparts _), map_eq_of_forall₂ (hparts _) fun _ _ hcd => readDecorator_alike hcd]

/-! ## Classes -/

/-- A member is called as its name reads. -/
theorem isCalledConstructor_of_rel
    (h : Option.Rel (SyntaxNode.IsAlike source source') (n.childIn? "name") (n'.childIn? "name")) :
    isCalledConstructor source n = isCalledConstructor source' n' := by
  unfold isCalledConstructor
  rcases cases_of_rel h with ⟨hnone, hnone'⟩ | ⟨e, e', he, he', halike⟩
  · rw [hnone, hnone']
    rfl
  · simp [he, he', halike.text]

theorem isCalledConstructor_alike (h : SyntaxNode.IsAlike source source' n n') :
    isCalledConstructor source n = isCalledConstructor source' n' := isCalledConstructor_of_rel (h.childIn? "name")

theorem members_alike (h : SyntaxNode.IsAlike source source' n n') :
    List.Forall₂ (SyntaxNode.IsAlike source source') (members n) (members n') :=
  filter_forall₂ h.namedChildren fun _ _ hcd => by rw [hcd.isComment]

theorem parameters_alike (h : SyntaxNode.IsAlike source source' n n') :
    List.Forall₂ Parameter.IsAlike ((n.namedChildren.filter isParameter).map (readParameter source))
      ((n'.namedChildren.filter isParameter).map (readParameter source')) := by
  rw [List.forall₂_map_left_iff, List.forall₂_map_right_iff]
  exact (filter_forall₂ h.namedChildren fun _ _ hcd => by rw [isParameter, isParameter, hcd.kind]).imp
    fun _ _ hcd => readParameter_alike hcd

/-- Two members are the same to a search for constructors: both are one or neither is, and so for signatures, and the
parameters of constructors read alike. -/
structure MembersAgree (source source' : List Char) (m m' : SyntaxNode) : Prop where
  isConstructor : isConstructor source m = isConstructor source' m'
  isSignature : isConstructorSignature source m = isConstructorSignature source' m'
  parameters : TypeScript.isConstructor source m = true →
    Option.Rel (SyntaxNode.IsAlike source source') (m.childIn? "parameters") (m'.childIn? "parameters")

theorem membersAgree_alike (h : SyntaxNode.IsAlike source source' n n') : MembersAgree source source' n n' where
  isConstructor := by rw [isConstructor, isConstructor, h.kind, isCalledConstructor_alike h]
  isSignature := by rw [isConstructorSignature, isConstructorSignature, h.kind, isCalledConstructor_alike h]
  parameters _ := h.childIn? "parameters"

theorem findConstructor?_rel (h : List.Forall₂ (MembersAgree source source') (members n) (members n')) :
    Option.Rel Constructor.IsAlike (findConstructor? source n) (findConstructor? source' n') := by
  have hfound := find?_rel h fun _ _ hm => hm.isConstructor
  have hsignatures := filter_forall₂ h fun _ _ hm => hm.isSignature
  unfold findConstructor?
  rcases cases_of_rel hfound with ⟨hnone, hnone'⟩ | ⟨m, m', hm, hm', hagree⟩
  · rw [hnone, hnone']
    exact .none
  · rw [hm, hm']
    rcases cases_of_rel (hagree.parameters (List.find?_some hm)) with
      ⟨hnone, hnone'⟩ | ⟨list, list', hlist, hlist', hlists⟩
    · simp only [Option.bind_some, hnone, hnone', Option.map_none]
      exact .none
    · simp only [Option.bind_some, hlist, hlist', Option.map_some]
      exact .some ⟨parameters_alike hlists, hsignatures.length_eq⟩

/-- In two bodies of classes the same constructor is found, or none in either. -/
structure BodiesAgree (source source' : List Char) (body body' : SyntaxNode) : Prop where
  kind : body.kind = body'.kind
  constructor? : body.kind = "class_body" →
    Option.Rel Constructor.IsAlike (findConstructor? source body) (findConstructor? source' body')

theorem bodiesAgree_alike (h : SyntaxNode.IsAlike source source' n n') : BodiesAgree source source' n n' :=
  ⟨h.kind, fun _ => findConstructor?_rel ((members_alike h).imp fun _ _ hm => membersAgree_alike hm)⟩

/-- What is read of a class comes from its name and its body. -/
theorem readClass?_rel (hkind : n.kind = n'.kind)
    (hname : Option.Rel (SyntaxNode.IsAlike source source') (n.childIn? "name") (n'.childIn? "name"))
    (hbody : Option.Rel (BodiesAgree source source') (n.childIn? "body") (n'.childIn? "body")) :
    Option.Rel ClassDecl.IsAlike (readClass? file source n) (readClass? file' source' n') := by
  unfold readClass? classParts?
  rw [hkind]
  split
  · rcases cases_of_rel hname with ⟨hnone, hnone'⟩ | ⟨name, name', hname, hname', hnames⟩
    · simp only [hnone, hnone']
      exact .none
    rcases cases_of_rel hbody with ⟨hnone, hnone'⟩ | ⟨body, body', hbody, hbody', hbodies⟩
    · simp only [hname, hname', hnone, hnone']
      exact .none
    simp only [hname, hname', hbody, hbody', ← hnames.kind, ← hbodies.kind]
    split
    · rename_i hkinds
      exact .some ⟨hnames.text, hbodies.constructor? hkinds.2⟩
    · exact .none
  · exact .none

theorem readClass?_alike (h : SyntaxNode.IsAlike source source' n n') :
    Option.Rel ClassDecl.IsAlike (readClass? file source n) (readClass? file' source' n') :=
  readClass?_rel h.kind (h.childIn? "name") (rel_mono (h.childIn? "body") fun _ _ hm => bodiesAgree_alike hm)

/-! ## Import statements -/

theorem localName?_alike (h : SyntaxNode.IsAlike source source' n n') :
    Option.Rel (SyntaxNode.IsAlike source source') (localName? n) (localName? n') := by
  unfold localName?
  rcases cases_of_rel (h.childIn? "alias") with ⟨hnone, hnone'⟩ | ⟨a, a', ha, ha', halike⟩
  · rw [hnone, hnone']
    exact h.childIn? "name"
  · rw [ha, ha']
    exact .some halike

theorem isSome_typeModifier?_alike (h : SyntaxNode.IsAlike source source' n n') :
    (typeModifier? n).isSome = (typeModifier? n').isSome := by
  unfold typeModifier?
  rcases cases_of_rel (head?_rel h.children) with ⟨hnone, hnone'⟩ | ⟨k, k', hk, hk', hkeywords⟩
  · rw [hnone, hnone']
  rcases cases_of_rel (h.childIn? "name") with ⟨hnone, hnone'⟩ | ⟨m, m', hm, hm', -⟩
  · rw [hk, hk', hnone, hnone']
  · simp only [hk, hk', hm, hm', hkeywords.isToken]
    split <;> rfl

theorem valueName?_eq (source : List Char) (n : SyntaxNode) : valueName? source n =
    if (typeModifier? n).isSome then none else (localName? n).map fun name => name.text source := by
  unfold valueName?
  cases localName? n <;> cases typeModifier? n <;> rfl

theorem map_name_typeSpecifier? (source : List Char) (n : SyntaxNode) :
    (typeSpecifier? source n).map TypeSpecifier.name =
      if (typeModifier? n).isSome then (localName? n).map fun name => name.text source else none := by
  unfold typeSpecifier?
  cases localName? n <;> cases typeModifier? n <;> rfl

theorem valueName?_alike (h : SyntaxNode.IsAlike source source' n n') : valueName? source n = valueName? source' n' := by
  rw [valueName?_eq, valueName?_eq, isSome_typeModifier?_alike h,
    map_eq_of_rel (localName?_alike h) fun _ _ hcd => hcd.text]

theorem typeSpecifier?_alike (h : SyntaxNode.IsAlike source source' n n') :
    (typeSpecifier? source n).map TypeSpecifier.name = (typeSpecifier? source' n').map TypeSpecifier.name := by
  rw [map_name_typeSpecifier?, map_name_typeSpecifier?, isSome_typeModifier?_alike h,
    map_eq_of_rel (localName?_alike h) fun _ _ hcd => hcd.text]

/-- A node of a list that is one of its names. -/
def isSpecifier (n : SyntaxNode) : Bool := n.isNamed && n.kind == "import_specifier"

/-- The names that some nodes of a list bind as values. -/
def valueNames (source : List Char) (ns : List SyntaxNode) : List String :=
  (ns.filter isSpecifier).filterMap (valueName? source)

/-- The names that some nodes of a list bind only as types. -/
def typeNames (source : List Char) (ns : List SyntaxNode) : List String :=
  (ns.filter isSpecifier).filterMap fun n => (typeSpecifier? source n).map TypeSpecifier.name

theorem isSpecifier_alike (h : SyntaxNode.IsAlike source source' n n') : isSpecifier n = isSpecifier n' := by
  rw [isSpecifier, isSpecifier, h.isNamed, h.kind]

theorem valueNames_alike {ns ns' : List SyntaxNode} (h : List.Forall₂ (SyntaxNode.IsAlike source source') ns ns') :
    valueNames source ns = valueNames source' ns' :=
  filterMap_eq_of_forall₂ (filter_forall₂ h fun _ _ hcd => isSpecifier_alike hcd) fun _ _ hcd => valueName?_alike hcd

theorem typeNames_alike {ns ns' : List SyntaxNode} (h : List.Forall₂ (SyntaxNode.IsAlike source source') ns ns') :
    typeNames source ns = typeNames source' ns' :=
  filterMap_eq_of_forall₂ (filter_forall₂ h fun _ _ hcd => isSpecifier_alike hcd) fun _ _ hcd => typeSpecifier?_alike hcd

theorem specifiers_eq (list : SyntaxNode) :
    specifiers list = list.children.filter isSpecifier := by
  rw [specifiers, namedChildren, List.filter_filter]
  exact List.filter_congr fun n _ => Bool.and_comm _ _

theorem named_readList (source : List Char) (list : SyntaxNode) :
    (readList source list).named = valueNames source list.children := by
  rw [readList, specifiers_eq, valueNames]

theorem typeOnlyNamed_readList (source : List Char) (list : SyntaxNode) :
    (readList source list).typeOnlyNamed.map TypeSpecifier.name = typeNames source list.children := by
  rw [readList, specifiers_eq, typeNames, List.map_filterMap]

/-- The list of names of a clause, if it has one. -/
def listOf? (clause : SyntaxNode) : Option SyntaxNode := clause.namedChildren.find? fun n => n.kind == "named_imports"

/-- The names of a clause are those of its list. -/
theorem named_readClause (source : List Char) (clause : SyntaxNode) : (readClause source clause).named =
    (listOf? clause).elim [] fun list => valueNames source list.children := by
  unfold readClause listOf?
  split
  · rename_i list hlist
    rw [hlist, named_readList]
    rfl
  · rename_i hlist
    rw [hlist]
    split
    · rfl
    · split <;> rfl

theorem typeOnlyNamed_readClause (source : List Char) (clause : SyntaxNode) :
    (readClause source clause).typeOnlyNamed.map TypeSpecifier.name =
      (listOf? clause).elim [] fun list => typeNames source list.children := by
  unfold readClause listOf?
  split
  · rename_i list hlist
    rw [hlist, typeOnlyNamed_readList]
    rfl
  · rename_i hlist
    rw [hlist]
    split
    · rfl
    · split <;> rfl

theorem listOf?_alike (h : SyntaxNode.IsAlike source source' n n') :
    Option.Rel (SyntaxNode.IsAlike source source') (listOf? n) (listOf? n') :=
  find?_rel h.namedChildren fun _ _ hcd => by rw [hcd.kind]

/-- The list of names of a statement, if it has one. -/
def nameList? (statement : SyntaxNode) : Option SyntaxNode := (clauseOf? statement).bind listOf?

theorem readImport_named (source : List Char) (statement module : SyntaxNode) :
    (readImport source statement module).named =
      (nameList? statement).elim [] fun list => valueNames source list.children := by
  unfold readImport nameList?
  cases hclause : clauseOf? statement with
  | none => rfl
  | some clause => exact named_readClause source clause

theorem readImport_typeOnlyNamed (source : List Char) (statement module : SyntaxNode) :
    (readImport source statement module).typeOnlyNamed.map TypeSpecifier.name =
      (nameList? statement).elim [] fun list => typeNames source list.children := by
  unfold readImport nameList?
  cases hclause : clauseOf? statement with
  | none => rfl
  | some clause => exact typeOnlyNamed_readClause source clause

theorem nameList?_alike (h : SyntaxNode.IsAlike source source' n n') :
    Option.Rel (SyntaxNode.IsAlike source source') (nameList? n) (nameList? n') := by
  have hclause : Option.Rel (SyntaxNode.IsAlike source source') (clauseOf? n) (clauseOf? n') :=
    find?_rel h.children fun _ _ hcd => by rw [hcd.kind]
  unfold nameList?
  rcases cases_of_rel hclause with ⟨hnone, hnone'⟩ | ⟨c, c', hc, hc', halike⟩
  · rw [hnone, hnone']
    exact .none
  · rw [hc, hc']
    exact listOf?_alike halike

theorem moduleOf?_alike (h : SyntaxNode.IsAlike source source' n n') :
    Option.Rel (SyntaxNode.IsAlike source source') (moduleOf? n) (moduleOf? n') := by
  unfold moduleOf?
  rw [h.kind]
  split
  · rcases cases_of_rel (h.childIn? "source") with ⟨hnone, hnone'⟩ | ⟨m, m', hm, hm', halike⟩
    · rw [hnone, hnone']
      exact .none
    · simp only [hm, hm', Option.filter_some, halike.kind]
      split
      · exact .some halike
      · exact .none
  · exact .none

theorem readImport_alike {module module' : SyntaxNode} (h : SyntaxNode.IsAlike source source' n n')
    (hmodule : SyntaxNode.IsAlike source source' module module') :
    (readImport source n module).IsAlike (readImport source' n' module') where
  moduleName := congrArg unquote hmodule.text
  named := by
    rw [readImport_named, readImport_named]
    exact elim_eq_of_rel (nameList?_alike h) fun _ _ hcd => valueNames_alike hcd.children
  typeOnlyNamed := by
    rw [readImport_typeOnlyNamed, readImport_typeOnlyNamed]
    exact elim_eq_of_rel (nameList?_alike h) fun _ _ hcd => typeNames_alike hcd.children
  isTypeOnly := any_eq_of_forall₂ h.children fun _ _ hcd => hcd.isToken "type"

theorem readImport?_alike (h : SyntaxNode.IsAlike source source' n n') :
    Option.Rel ImportDecl.IsAlike (readImport? source n) (readImport? source' n') := by
  unfold readImport?
  rcases cases_of_rel (moduleOf?_alike h) with ⟨hnone, hnone'⟩ | ⟨m, m', hm, hm', hmodules⟩
  · rw [hnone, hnone']
    exact .none
  · rw [hm, hm']
    exact .some (readImport_alike h hmodules)

end

end TypeScript

end FieldInjection
