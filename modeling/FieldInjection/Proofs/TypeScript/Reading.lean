import FieldInjection.Proofs.Syntax.Nodes
import FieldInjection.TypeScript.SourceFile

/-!
# What is read from nodes

The parts of a parameter, of a constructor, of a class and of a file, each in terms of the nodes that they are read
from.
-/

namespace FieldInjection.TypeScript

open SyntaxNode

section
variable {file path relativePath : Path} {source : List Char} {text : String} {tree : SyntaxTree} {n body : SyntaxNode}
  {k : Constructor} {c : ClassDecl} {i : ImportDecl}

/-! ## Parameters -/

/-- The parts that the children of its node add to a parameter. -/
theorem foldl_addPart (parts : List SyntaxNode) (p : Parameter) : parts.foldl (addPart source) p =
    { p with
      isReadonly := p.isReadonly || parts.any (·.kind == "readonly")
      isOverride := p.isOverride || parts.any (·.kind == "override_modifier")
      scope := (parts.filter (·.kind == "accessibility_modifier")).foldl
        (fun scope part => (Scope.ofKeyword? (part.text source)).or scope) p.scope
      decorators := p.decorators ++ (parts.filter (·.kind == "decorator")).map (readDecorator source) } := by
  induction parts generalizing p with
  | nil => simp
  | cons part parts ih =>
    rw [List.foldl_cons, ih]
    unfold addPart
    split
    · rename_i hkind
      simp [hkind]
    split
    · rename_i hkind
      simp [hkind]
    split
    · rename_i hkind
      simp [hkind]
    split
    · rename_i hkind
      simp [hkind]
    · rename_i hdecorator hscope hoverride hreadonly
      rw [List.any_cons, List.any_cons, beq_eq_false_iff_ne.mpr hoverride, beq_eq_false_iff_ne.mpr hreadonly]
      simp [hdecorator, hscope]

/-- A parameter in terms of its node. -/
theorem readParameter_eq (source : List Char) (n : SyntaxNode) : readParameter source n =
    { name := (readPattern source n).1
      binding := (readPattern source n).2
      declaredType := readType source n
      isReadonly := n.children.any (·.kind == "readonly")
      isOverride := n.children.any (·.kind == "override_modifier")
      scope := (n.children.filter (·.kind == "accessibility_modifier")).foldl
        (fun scope part => (Scope.ofKeyword? (part.text source)).or scope) none
      decorators := (n.children.filter (·.kind == "decorator")).map (readDecorator source)
      range := n.range } := by
  rw [readParameter, foldl_addPart]
  simp

@[simp] theorem range_readParameter (source : List Char) (n : SyntaxNode) : (readParameter source n).range = n.range := by
  rw [readParameter_eq]

theorem decorators_readParameter (source : List Char) (n : SyntaxNode) :
    (readParameter source n).decorators = (n.children.filter (·.kind == "decorator")).map (readDecorator source) := by
  rw [readParameter_eq]

/-! ## Constructors -/

theorem mem_members_iff {m : SyntaxNode} :
    m ∈ members body ↔ m ∈ body.children ∧ m.isNamed = true ∧ m.isComment = false := by
  rw [members, List.mem_filter, mem_namedChildren_iff, Bool.not_eq_true', and_assoc]

/-- The node of a method and that of its parameters. -/
structure IsMethodOf (body method list : SyntaxNode) : Prop where
  member : method ∈ members body
  kind : method.kind = "method_definition"
  parameters : method.childIn? "parameters" = some list

theorem findConstructor?_eq_some (h : findConstructor? source body = some k) : ∃ method list,
    IsMethodOf body method list ∧
    k.parameters = (list.namedChildren.filter isParameter).map (readParameter source) ∧
    k.parameterList = innerRange list := by
  unfold findConstructor? at h
  obtain ⟨method, hmethod, h⟩ := Option.bind_eq_some_iff.mp h
  obtain ⟨list, hlist, rfl⟩ := Option.map_eq_some_iff.mp h
  have hfound := List.find?_some hmethod
  rw [isConstructor, Bool.and_eq_true, beq_iff_eq] at hfound
  exact ⟨method, list, ⟨List.mem_of_find?_eq_some hmethod, hfound.1, hlist⟩, rfl, rfl⟩

/-! ## Classes -/

/-- The node of a class declaration, with those of its name and its body. -/
structure IsClassOf (n name body : SyntaxNode) : Prop where
  kind : n.kind = "class_declaration" ∨ n.kind = "abstract_class_declaration"
  mem_name : name ∈ n.children
  mem_body : body ∈ n.children
  kind_body : body.kind = "class_body"

theorem classParts?_eq_some {name body : SyntaxNode} : classParts? n = some (name, body) ↔
    (n.kind = "class_declaration" ∨ n.kind = "abstract_class_declaration") ∧ n.childIn? "name" = some name ∧
      n.childIn? "body" = some body ∧ name.kind = "type_identifier" ∧ body.kind = "class_body" := by
  unfold classParts?
  constructor
  · intro h
    split at h
    · split at h
      · split at h
        · cases h
          simp_all
        · cases h
      · cases h
    · cases h
  · rintro ⟨hkind, hname, hbody, hkinds⟩
    simp only [if_pos hkind, hname, hbody, if_pos hkinds]

theorem isClassOf_of_classParts? {name body : SyntaxNode} (h : classParts? n = some (name, body)) :
    IsClassOf n name body := by
  obtain ⟨hkind, hname, hbody, -, hkindBody⟩ := classParts?_eq_some.mp h
  exact ⟨hkind, (mem_children_of_childIn? hname).1, (mem_children_of_childIn? hbody).1, hkindBody⟩

theorem readClass?_eq_some (h : readClass? file source n = some c) : ∃ name body, IsClassOf n name body ∧
    c = ⟨name.text source, file, n.range, body.start + 1, memberIndent source body, !(members body).isEmpty,
      lineEndingOf source, findConstructor? source body⟩ := by
  obtain ⟨⟨name, body⟩, hparts, rfl⟩ := Option.map_eq_some_iff.mp h
  exact ⟨name, body, isClassOf_of_classParts? hparts, rfl⟩

theorem classes_readTree_perm : (readTree path relativePath text tree).classes.Perm
    (tree.root.nodes.filterMap (readClass? path text.toList)) := List.mergeSort_perm _ _

theorem mem_classes_readTree (h : c ∈ (readTree path relativePath text tree).classes) :
    ∃ n ∈ tree.root.nodes, readClass? path text.toList n = some c :=
  List.mem_filterMap.mp (classes_readTree_perm.subset h)

/-! ## Import statements -/

/-- The node of an import statement and that of its module. -/
structure IsImportOf (n module : SyntaxNode) : Prop where
  kind : n.kind = "import_statement"
  inSource : n.childIn? "source" = some module
  kind_module : module.kind = "string"

theorem isImportOf_of_moduleOf? {module : SyntaxNode} (h : moduleOf? n = some module) : IsImportOf n module := by
  unfold moduleOf? at h
  split at h
  · rename_i hkind
    obtain ⟨hmodule, hstring⟩ := Option.filter_eq_some_iff.mp h
    exact ⟨hkind, hmodule, by simpa using hstring⟩
  · cases h

theorem readImport?_eq_some (h : readImport? source n = some i) :
    ∃ module, IsImportOf n module ∧ i = readImport source n module := by
  obtain ⟨module, hmodule, rfl⟩ := Option.map_eq_some_iff.mp h
  exact ⟨module, isImportOf_of_moduleOf? hmodule, rfl⟩

theorem mem_imports_readTree (h : i ∈ (readTree path relativePath text tree).imports) :
    ∃ n ∈ tree.root.nodes, readImport? text.toList n = some i :=
  List.mem_filterMap.mp ((List.mergeSort_perm _ _).subset h)

end

end FieldInjection.TypeScript
