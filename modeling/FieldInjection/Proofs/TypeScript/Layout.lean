import FieldInjection.Proofs.Planning.ClassEdits
import FieldInjection.Proofs.TypeScript.Offsets

/-!
# The layout of a file

What is read from a file is laid out in its text: the offsets of each class are boundaries of the text and in order
(`readTree_isLaidOut`), the parameter lists of two classes overlap only if the body of one begins in the list of the
other (`readTree_areApart`), and an import statement is changed at places at which no class body begins
(`apart_from_importPlace`). A class or an import statement in a parameter list stands within one of its parameters, so
that no parameter begins where it is changed (`start_ne_of_inside`).
-/

namespace FieldInjection

/-- A class that is placed in a text is laid out in it. -/
theorem ClassDecl.IsPlacedIn.isLaidOut {text : List Char} {c : ClassDecl} (h : c.IsPlacedIn text) : c.IsLaidOut text := by
  intro k hk
  obtain ⟨hplaced, hbody, -⟩ := h.constructor k hk
  have hlist := hplaced.isValidFor
  simp only [TextRange.isValidFor, Bool.and_eq_true, decide_eq_true_eq] at hlist
  exact {
    bodyStart_boundary := h.bodyStart_boundary
    bodyStart_le := hbody
    start_boundary := hlist.1.2
    stop_boundary := hlist.2
    parameter_boundary := by
      intro q hq
      have hvalid := (hplaced.parameters q hq).isValidFor
      simp only [TextRange.isValidFor, Bool.and_eq_true] at hvalid
      exact hvalid.1.2
    start_le := fun q hq => (hplaced.inside q hq).1
    le_stop := by
      intro q hq
      have hlt := (hplaced.parameters q hq).start_lt_stop
      have hstop := (hplaced.inside q hq).2
      omega
    ascending := by
      refine hplaced.ordered.imp_of_mem fun hq _ hle => ?_
      have := (hplaced.parameters _ hq).start_lt_stop
      omega }

namespace TypeScript

open SyntaxNode

section
variable {source : List Char} {root n m body method list clause statement : SyntaxNode} {file : Path} {c d : ClassDecl}
  {k : Constructor}

/-! ## The parameter list of a class -/

/-- The list of parameters of a class, with the nodes around it. -/
structure IsListIn (n body method list : SyntaxNode) : Prop where
  isClass : n.isClass = true
  mem_body : body ∈ n.children
  kind_body : body.kind = "class_body"
  mem_method : method ∈ body.children
  kind_method : method.kind = "method_definition"
  mem_list : list ∈ method.children
  kind_list : list.kind = "formal_parameters"

/-- What is read of a class with a constructor. -/
structure IsReadFrom (source : List Char) (c : ClassDecl) (k : Constructor) (body list : SyntaxNode) : Prop where
  bodyStart : c.bodyStart = body.start + 1
  parameters : k.parameters = (list.namedChildren.filter isParameter).map (readParameter source)
  parameterList : k.parameterList = innerRange list

theorem exists_list (hshaped : n.AreShaped) (hread : readClass? file source n = some c) (hk : c.constructor? = some k) :
    ∃ body method list, IsListIn n body method list ∧ IsReadFrom source c k body list := by
  obtain ⟨name, body, hclass, rfl⟩ := readClass?_eq_some hread
  obtain ⟨method, list, hmethod, hparameters, hrange⟩ := findConstructor?_eq_some hk
  have hmem := (mem_members_iff.mp hmethod.member).1
  have hbelow : method ∈ n.nodes :=
    mem_nodes_trans (mem_nodes_of_mem_children hmem) (mem_nodes_of_mem_children hclass.mem_body)
  have hkind := (hshaped method hbelow).kind_parameters hmethod.kind hmethod.parameters
  exact ⟨body, method, list, ⟨hclass.isClass, hclass.mem_body, hclass.kind_body, hmem, hmethod.kind,
    (mem_children_of_childIn? hmethod.parameters).1, hkind⟩, rfl, hparameters, hrange⟩

theorem IsListIn.mem_nodes (h : IsListIn n body method list) : list ∈ n.nodes :=
  mem_nodes_trans (mem_nodes_of_mem_children h.mem_list)
    (mem_nodes_trans (mem_nodes_of_mem_children h.mem_method) (mem_nodes_of_mem_children h.mem_body))

/-- What stands below a class and overlaps the list of its parameters stands below the list, unless it is around it. -/
theorem IsListIn.mem_nodes_of_overlap (h : n.ArePlaced source) (hlist : IsListIn n body method list) (hm : m ∈ n.nodes)
    (hne : m ≠ n) (hbody : m.kind ≠ "class_body") (hmethod : m.kind ≠ "method_definition") (hoverlap : m.Overlap list) :
    m ∈ list.nodes := by
  have hplacedBody := h.child hlist.mem_body
  have hplacedMethod := hplacedBody.child hlist.mem_method
  obtain ⟨hstart, hstop⟩ := hplacedMethod.isPlaced.inside list hlist.mem_list
  have hinMethod : m.Overlap method := hoverlap.of_within hstart hstop
  obtain ⟨hstart, hstop⟩ := hplacedBody.isPlaced.inside method hlist.mem_method
  have hinBody : m.Overlap body := hinMethod.of_within hstart hstop
  -- down from the class to its body, to the constructor and to the list
  have hm := h.mem_nodes_of_overlap hlist.mem_body hm hne hinBody
  have hm := hplacedBody.mem_nodes_of_overlap hlist.mem_method hm (by rintro rfl; exact hbody hlist.kind_body) hinMethod
  exact hplacedMethod.mem_nodes_of_overlap hlist.mem_list hm (by rintro rfl; exact hmethod hlist.kind_method) hoverlap

/-- What stands below a parameter list stands between its parentheses. -/
theorem IsListIn.between (h : n.ArePlaced source) (hshaped : n.AreShaped) (hlist : IsListIn n body method list)
    (hm : m ∈ list.nodes) (hne : m.kind ≠ "formal_parameters") (hopening : m.kind ≠ "(") (hclosing : m.kind ≠ ")") :
    list.start + 1 ≤ m.start ∧ m.stop + 1 ≤ list.stop := by
  have hplaced := h.of_mem hlist.mem_nodes
  have henclosed := (hshaped list hlist.mem_nodes).parameterList hlist.kind_list
  have hother : m ≠ list := by
    rintro rfl
    exact hne hlist.kind_list
  exact ⟨hplaced.behind_token henclosed.1 hm hother (isToken_eq_false hopening),
    hplaced.before_token henclosed.2 hm hother (isToken_eq_false hclosing)⟩

/-- The body of a class, with its braces. -/
theorem IsClassOf.body_bounds {name : SyntaxNode} (h : n.ArePlaced source) (hshaped : n.AreShaped)
    (hclass : IsClassOf n name body) : n.start ≤ body.start ∧ body.start + 1 + 1 ≤ body.stop ∧ body.stop ≤ n.stop := by
  obtain ⟨hstart, hstop⟩ := h.isPlaced.inside body hclass.mem_body
  have henclosed := (hshaped.child hclass.mem_body body (self_mem_nodes _)).classBody hclass.kind_body
  exact ⟨hstart, (h.child hclass.mem_body).brackets_le henclosed (by decide), hstop⟩

/-! ## Two classes -/

theorem kind_of_isClass (h : n.isClass = true) : n.kind = "class_declaration" ∨ n.kind = "abstract_class_declaration" := by
  simpa [isClass] using h

theorem kind_ne_of_isClass (h : n.isClass = true) {kind : String} (hclass : kind ≠ "class_declaration")
    (habstract : kind ≠ "abstract_class_declaration") : n.kind ≠ kind := by
  rintro rfl
  rcases kind_of_isClass h with h | h
  · exact hclass h
  · exact habstract h

/-- A class in the parameter list of another one has its body begin there. -/
theorem not_isApartFrom_of_mem_nodes {name body' : SyntaxNode} (h : n.ArePlaced source) (hshaped : n.AreShaped)
    (hlist : IsListIn n body method list) (hm : m ∈ list.nodes) (hclass : IsClassOf m name body') :
    ¬ (TextRange.empty (body'.start + 1)).IsApartFrom (innerRange list) := by
  have hmn := mem_nodes_trans hm hlist.mem_nodes
  obtain ⟨hstart, hroom, hstop⟩ := hclass.body_bounds (h.of_mem hmn) (hshaped.of_mem hmn)
  have hkind : ∀ {kind : String}, kind ≠ "class_declaration" → kind ≠ "abstract_class_declaration" → m.kind ≠ kind :=
    kind_ne_of_isClass hclass.isClass
  obtain ⟨hopening, hclosing⟩ := hlist.between h hshaped hm (hkind (by decide) (by decide)) (hkind (by decide) (by decide))
    (hkind (by decide) (by decide))
  simp only [TextRange.IsApartFrom, TextRange.empty, innerRange]
  omega

/-- Two classes are apart unless the body of one begins in the parameter list of the other. -/
theorem readClass?_areApart (h : root.ArePlaced source) (hshaped : root.AreShaped) (hn : n ∈ root.nodes)
    (hm : m ∈ root.nodes) (hnm : (m ∈ n.nodes ∧ m ≠ n) ∨ n.stop ≤ m.start) (hc : readClass? file source n = some c)
    (hd : readClass? file source m = some d) (hcd : (TextRange.empty c.bodyStart).IsApartFrom d.parameterList)
    (hdc : (TextRange.empty d.bodyStart).IsApartFrom c.parameterList) : c.AreApart d := by
  refine ⟨⟨hcd, ?_⟩, hdc⟩
  cases hk : c.constructor? with
  | none =>
    -- without a constructor the list is the empty range where the body begins
    have hempty : c.parameterList = .empty c.bodyStart := by simp [ClassDecl.parameterList, hk]
    rwa [hempty]
  | some k =>
    cases hk' : d.constructor? with
    | none =>
      have hempty : d.parameterList = .empty d.bodyStart := by simp [ClassDecl.parameterList, hk']
      rw [hempty]
      exact hdc.symm
    | some k' =>
      have hplaced := h.of_mem hn
      have hplaced' := h.of_mem hm
      obtain ⟨body, method, list, hlist, hfrom⟩ := exists_list (hshaped.of_mem hn) hc hk
      obtain ⟨body', method', list', hlist', hfrom'⟩ := exists_list (hshaped.of_mem hm) hd hk'
      have hwithin := hplaced.within hlist.mem_nodes
      have hwithin' := hplaced'.within hlist'.mem_nodes
      have hrange : c.parameterList = innerRange list := by simp [ClassDecl.parameterList, hk, hfrom.parameterList]
      have hrange' : d.parameterList = innerRange list' := by simp [ClassDecl.parameterList, hk', hfrom'.parameterList]
      obtain ⟨name', body'', hclass', hdEq⟩ := readClass?_eq_some hd
      have hbodyStart : d.bodyStart = body''.start + 1 := by rw [hdEq]
      rw [hrange, hbodyStart] at hdc
      -- the second class does not overlap the list of the first one, for it would stand in it
      have happart : m.stop ≤ list.start ∨ list.stop ≤ m.start := by
        rcases hnm with ⟨hbelow, hne⟩ | hle
        · refine Classical.byContradiction fun hoverlap => ?_
          have hkind : ∀ {kind : String}, kind ≠ "class_declaration" → kind ≠ "abstract_class_declaration" →
              m.kind ≠ kind := kind_ne_of_isClass hclass'.isClass
          have hmem := hlist.mem_nodes_of_overlap hplaced hbelow hne (hkind (by decide) (by decide))
            (hkind (by decide) (by decide)) ⟨by omega, by omega⟩
          exact not_isApartFrom_of_mem_nodes hplaced (hshaped.of_mem hn) hlist hmem hclass' hdc
        · exact Or.inr (Nat.le_trans hwithin.2 hle)
      rw [hrange, hrange']
      simp only [TextRange.IsApartFrom, innerRange]
      omega

/-! ## Changes in a parameter list -/

/-- A node that overlaps the list of parameters of a class, and is not around the class, stands in the list. -/
theorem mem_nodes_of_inside (h : root.ArePlaced source) (hn : n ∈ root.nodes) (hm : m ∈ root.nodes)
    (hlist : IsListIn n body method list) (hbody : m.kind ≠ "class_body") (hmethod : m.kind ≠ "method_definition")
    (hout : n ∉ m.nodes) (hoverlap : m.Overlap list) : m ∈ list.nodes := by
  have hplaced := h.of_mem hn
  obtain ⟨hstart, hstop⟩ := hplaced.within hlist.mem_nodes
  obtain ⟨hleft, hright⟩ := hoverlap.of_within hstart hstop
  rcases h.nested_or_apart hn hm with hin | hin | hle | hle
  · exact absurd hin hout
  · exact hlist.mem_nodes_of_overlap hplaced hin (by rintro rfl; exact hout (self_mem_nodes _)) hbody hmethod hoverlap
  · omega
  · omega

/-- No parameter begins inside a node in the list. -/
theorem start_ne_of_inside (h : n.ArePlaced source) (hlist : IsListIn n body method list)
    (hfrom : IsReadFrom source c k body list) (hm : m ∈ list.nodes) (hne : m.kind ≠ "formal_parameters") {x : Nat}
    (hstart : m.start < x) (hstop : x < m.stop) : ∀ q ∈ k.parameters, x ≠ q.range.start := by
  intro q hq
  rw [hfrom.parameters] at hq
  obtain ⟨a, ha, rfl⟩ := List.mem_map.mp hq
  have hmem := (mem_namedChildren_iff.mp (List.mem_of_mem_filter ha)).1
  rw [range_readParameter]
  exact (h.of_mem hlist.mem_nodes).ne_start hm (by rintro rfl; exact hne hlist.kind_list) hstart hstop hmem

/-- No parameter begins with the body of a class that begins in the parameter list. -/
theorem start_ne_bodyStart (h : root.ArePlaced source) (hshaped : root.AreShaped) (hn : n ∈ root.nodes)
    (hm : m ∈ root.nodes) (hc : readClass? file source n = some c) (hd : readClass? file source m = some d)
    (hk : c.constructor? = some k) (hin : ¬ (TextRange.empty d.bodyStart).IsApartFrom k.parameterList) :
    ∀ q ∈ k.parameters, TextRange.empty d.bodyStart ≠ .empty q.range.start := by
  obtain ⟨body, method, list, hlist, hfrom⟩ := exists_list (hshaped.of_mem hn) hc hk
  obtain ⟨name', body', hclass', rfl⟩ := readClass?_eq_some hd
  have hplaced := h.of_mem hn
  have hplaced' := h.of_mem hm
  obtain ⟨hstart', hroom', hstop'⟩ := hclass'.body_bounds hplaced' (hshaped.of_mem hm)
  have hwithin := hplaced.within hlist.mem_nodes
  have hkind : ∀ {kind : String}, kind ≠ "class_declaration" → kind ≠ "abstract_class_declaration" → m.kind ≠ kind :=
    kind_ne_of_isClass hclass'.isClass
  replace hin : ¬ (TextRange.empty (body'.start + 1)).IsApartFrom (innerRange list) := by
    rw [← hfrom.parameterList]
    exact hin
  have hinside : list.start + 1 < body'.start + 1 ∧ body'.start + 1 < list.stop - 1 := by
    simp only [TextRange.IsApartFrom, TextRange.empty, innerRange] at hin
    omega
  -- the class with the parameter list does not stand in the other one, whose body would begin before it
  have hout : n ∉ m.nodes := by
    intro hbelow
    have hinBody : list ∈ body'.nodes :=
      hplaced'.mem_nodes_of_overlap hclass'.mem_body (mem_nodes_trans hlist.mem_nodes hbelow)
        (by rintro rfl; exact hkind (by decide) (by decide) hlist.kind_list) ⟨by omega, by omega⟩
    have hbraces := (hshaped.of_mem hm).child hclass'.mem_body body' (self_mem_nodes _)
    have hbehind := (hplaced'.child hclass'.mem_body).behind_token (hbraces.classBody hclass'.kind_body).1 hinBody
      (by rintro rfl; exact absurd (hlist.kind_list.symm.trans hclass'.kind_body) (by decide))
      (isToken_eq_false (by rw [hlist.kind_list]; decide))
    have hlength : byteLength "\x7b".toList = 1 := rfl
    omega
  have hmem := mem_nodes_of_inside h hn hm hlist (hkind (by decide) (by decide)) (hkind (by decide) (by decide)) hout
    ⟨by omega, by omega⟩
  intro q hq heq
  exact start_ne_of_inside hplaced hlist hfrom hmem (hkind (by decide) (by decide)) (x := body'.start + 1) (by omega)
    (by omega) q hq (congrArg TextRange.start heq)

/-- Where an import statement of the file can be changed. -/
def IsImportPlace (source : List Char) (root : SyntaxNode) (range : TextRange) : Prop :=
  ∃ statement ∈ root.nodes, ∃ module, IsImportOf statement module ∧
    ∃ clause, IsClauseOf statement clause ∧ IsPlaceIn source clause range

variable {range : TextRange}

/-- No class body begins inside a place at which an import statement can be changed. -/
theorem apart_from_importPlace (h : root.ArePlaced source) (hshaped : root.AreShaped) (hm : m ∈ root.nodes)
    (hplace : IsImportPlace source root range) (hd : readClass? file source m = some d) :
    (TextRange.empty d.bodyStart).IsApartFrom range := by
  obtain ⟨statement, hstatement, -, -, clause, hclause, hplace⟩ := hplace
  obtain ⟨name, body, hclass, rfl⟩ := readClass?_eq_some hd
  have hbelow := mem_nodes_trans (mem_nodes_of_mem_children hclause.1) hstatement
  have hbody := mem_nodes_trans (mem_nodes_of_mem_children hclass.mem_body) hm
  have hroom := (hclass.body_bounds (h.of_mem hm) (hshaped.of_mem hm)).2.1
  have hstart := hplace.start_lt
  have hstop := hplace.stop_le
  simp only [TextRange.IsApartFrom, TextRange.empty]
  rcases h.nested_or_apart hbody hbelow with hin | hin | hle | hle
  · exact absurd hclass.kind_body ((hshaped clause hbelow).importClause hclause.2 body hin)
  · -- the clause stands behind the brace
    have hbrace := ((hshaped body hbody).classBody hclass.kind_body).1
    have hbehind := (h.of_mem hbody).behind_token hbrace hin
      (by rintro rfl; exact absurd (hclause.2.symm.trans hclass.kind_body) (by decide))
      (isToken_eq_false (by rw [hclause.2]; decide))
    have hlength : byteLength "\x7b".toList = 1 := rfl
    omega
  · omega
  · omega

/-- No parameter begins where an import statement in the parameter list is changed. -/
theorem start_ne_importPlace (h : root.ArePlaced source) (hshaped : root.AreShaped) (hn : n ∈ root.nodes)
    (hc : readClass? file source n = some c) (hk : c.constructor? = some k) (hplace : IsImportPlace source root range)
    (hin : ¬ range.IsApartFrom k.parameterList) : ∀ q ∈ k.parameters, range ≠ .empty q.range.start := by
  obtain ⟨body, method, list, hlist, hfrom⟩ := exists_list (hshaped.of_mem hn) hc hk
  obtain ⟨statement, hstatement, module, hmodule, clause, hclause, hplace⟩ := hplace
  rintro q hq rfl
  have hplaced := h.of_mem hstatement
  have hstart := hplace.start_lt
  have hstop := hplace.stop_le
  have hclauseStart := (hplaced.isPlaced.inside clause hclause.1).1
  have hclauseStop := clause_stop_lt hplaced (hshaped.of_mem hstatement) hmodule hclause
  have hinside : list.start + 1 < q.range.start ∧ q.range.start < list.stop - 1 := by
    rw [hfrom.parameterList] at hin
    simp only [TextRange.IsApartFrom, TextRange.empty, innerRange] at hin
    omega
  simp only [TextRange.empty] at hstart hstop
  -- no class stands in the clause, and so none in the statement around the place
  have hout : n ∉ statement.nodes := by
    intro hbelow
    have hbody := (h.of_mem hn).isPlaced.inside body hlist.mem_body
    have hwithin := ((h.of_mem hn).child hlist.mem_body).within
      (mem_nodes_trans (mem_nodes_of_mem_children hlist.mem_list) (mem_nodes_of_mem_children hlist.mem_method))
    have hbodyStatement := mem_nodes_trans (mem_nodes_of_mem_children hlist.mem_body) hbelow
    have hinClause := hplaced.mem_nodes_of_overlap hclause.1 hbodyStatement
      (by rintro rfl; exact absurd (hlist.kind_body.symm.trans hmodule.kind) (by decide)) ⟨by omega, by omega⟩
    have hmem := mem_nodes_trans (mem_nodes_of_mem_children hclause.1) hstatement
    exact (hshaped clause hmem).importClause hclause.2 body hinClause hlist.kind_body
  have hkind : ∀ {kind : String}, kind ≠ "import_statement" → statement.kind ≠ kind := by
    rintro kind hne rfl
    exact hne hmodule.kind
  have hmem := mem_nodes_of_inside h hn hstatement hlist (hkind (by decide)) (hkind (by decide)) hout
    ⟨by omega, by omega⟩
  exact start_ne_of_inside (h.of_mem hn) hlist hfrom hmem (hkind (by decide)) (by omega) (by omega) q hq rfl

end

/-! ## One file -/

section
variable {path relativePath : Path} {text : String} {tree : SyntaxTree} {c : ClassDecl} {k : Constructor} {i : ImportDecl}
  {range : TextRange}

theorem file_readTree (hc : c ∈ (readTree path relativePath text tree).classes) : c.file = path := by
  obtain ⟨n, -, hread⟩ := mem_classes_readTree hc
  obtain ⟨name, body, -, rfl⟩ := readClass?_eq_some hread
  rfl

/-- The offsets of the classes of a file are boundaries of its text and in order. -/
theorem readTree_isLaidOut (h : tree.root.ArePlaced text.toList) (hshaped : tree.root.AreShaped)
    (hc : c ∈ (readTree path relativePath text tree).classes) : c.IsLaidOut text.toList := by
  obtain ⟨n, hn, hread⟩ := mem_classes_readTree hc
  exact (readClass?_isPlacedIn (h.of_mem hn) (hshaped.of_mem hn) hread).isLaidOut

/-- A file is what is read from its tree if what it holds is what is found there. -/
theorem eq_readTree {u : SourceUnit} (h : tree.root.ArePlaced u.text.toList) (hshaped : tree.root.AreShaped)
    (hclasses : u.classes = tree.root.nodes.filterMap (readClass? u.path u.text.toList))
    (himports : u.imports = tree.root.nodes.filterMap (readImport? u.text.toList))
    (herrors : u.hasSyntaxErrors = tree.hasError) : u = readTree u.path u.relativePath u.text tree := by
  have hread : (readTree u.path u.relativePath u.text tree).classes = _ := classes_readTree h hshaped
  have hread' : (readTree u.path u.relativePath u.text tree).imports = _ := imports_readTree h
  rw [← hread] at hclasses
  rw [← hread'] at himports
  obtain ⟨path, relativePath, text, classes, imports, errors⟩ := u
  simp only at hclasses himports herrors
  subst hclasses himports herrors
  rfl

/-- Two classes of a file are apart unless the body of one begins in the parameter list of the other. -/
theorem readTree_areApart (h : tree.root.ArePlaced text.toList) (hshaped : tree.root.AreShaped) :
    (readTree path relativePath text tree).classes.Pairwise fun c d =>
      (TextRange.empty c.bodyStart).IsApartFrom d.parameterList →
        (TextRange.empty d.bodyStart).IsApartFrom c.parameterList → c.AreApart d := by
  rw [classes_readTree h hshaped, List.pairwise_filterMap]
  refine h.pairwise_nodes.imp_of_mem ?_
  intro n m hn hm hnm c hc d hd hcd hdc
  exact readClass?_areApart h hshaped hn hm hnm hc hd hcd hdc

/-- Every import statement of a file is changed at places of its tree. -/
theorem readTree_changesAt (h : tree.root.ArePlaced text.toList) (hshaped : tree.root.AreShaped)
    (hi : i ∈ (readTree path relativePath text tree).imports) : i.ChangesAt (IsImportPlace text.toList tree.root) := by
  obtain ⟨n, hn, hread⟩ := mem_imports_readTree hi
  obtain ⟨module, hmodule, rfl⟩ := readImport?_eq_some hread
  refine (changesAt_readImport (h.of_mem hn) (hshaped.of_mem hn)).imp ?_
  rintro range ⟨clause, hclause, hplace⟩
  exact ⟨n, hn, module, hmodule, clause, hclause, hplace⟩

/-- A change in the parameter list of a class of the file is made at no offset at which a parameter begins. -/
theorem readTree_start_ne (h : tree.root.ArePlaced text.toList) (hshaped : tree.root.AreShaped)
    (hc : c ∈ (readTree path relativePath text tree).classes) (hk : c.constructor? = some k)
    (hin : ¬ range.IsApartFrom k.parameterList)
    (hrange : (∃ d ∈ (readTree path relativePath text tree).classes, range = .empty d.bodyStart) ∨
      IsImportPlace text.toList tree.root range) : ∀ q ∈ k.parameters, range ≠ .empty q.range.start := by
  obtain ⟨n, hn, hread⟩ := mem_classes_readTree hc
  rcases hrange with ⟨d, hd, rfl⟩ | hplace
  · obtain ⟨m, hm, hread'⟩ := mem_classes_readTree hd
    exact start_ne_bodyStart h hshaped hn hm hread hread' hk hin
  · exact start_ne_importPlace h hshaped hn hread hk hplace hin

end

end TypeScript

end FieldInjection
