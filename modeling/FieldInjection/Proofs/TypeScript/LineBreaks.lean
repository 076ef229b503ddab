import FieldInjection.Proofs.Text.LineFeeds
import FieldInjection.Proofs.TypeScript.Layout

/-!
# Nodes and line breaks

What a field is made of are texts of nodes below its parameter (`readParameter_hasTexts`). A parser takes a carriage
return with a line feed for one line break (`Parser.KeepsBreaksWhole`); then no text of a node begins in the middle of
one, and no class or import statement is changed there (`parameterList_stop_whole`, `readImport_whole`).
-/

namespace FieldInjection

/-- The texts that a field takes over from its parameter have a property. -/
structure Parameter.HasTexts (P : String → Prop) (q : Parameter) : Prop where
  name : P q.name
  declaredType : ∀ type, q.declaredType = some type → P type
  token : ∀ d ∈ q.decorators, ∀ token, d.kind = .token token → P token

/-- A token is one of the arguments. -/
theorem DecoratorKind.mem_of_classify {name token : String} {arguments? : Option (List String)}
    (h : classify name arguments? = .token token) : ∃ arguments, arguments? = some arguments ∧ token ∈ arguments := by
  unfold classify at h
  split at h
  · cases h
  · split at h <;> cases h
  · split at h
    · rename_i first rest _
      cases h
      exact ⟨_, rfl, List.mem_cons_self⟩
    · cases h

namespace SyntaxNode

/-- A node that is a name in an import statement. -/
def isImportName (n : SyntaxNode) : Bool := n.kind == "import_specifier" || n.kind == "identifier"

/-- No node begins between the two signs of a line break, and no name ends there. -/
structure KeepsBreaksWhole (source : List Char) (n : SyntaxNode) : Prop where
  start : splitsBreak source n.start = false
  stop : n.isImportName = true → splitsBreak source n.stop = false

instance (source : List Char) (n : SyntaxNode) : Decidable (n.KeepsBreaksWhole source) :=
  decidable_of_iff
    (splitsBreak source n.start = false ∧ (n.isImportName = true → splitsBreak source n.stop = false))
    ⟨fun ⟨h₁, h₂⟩ => ⟨h₁, h₂⟩, fun ⟨h₁, h₂⟩ => ⟨h₁, h₂⟩⟩

end SyntaxNode

/-- Nodes of texts without errors do not cut line breaks in two. -/
def Parser.KeepsBreaksWhole (parse : Parser) : Prop :=
  ∀ grammar text, (parse grammar text).hasError = false →
    ∀ n ∈ (parse grammar text).root.nodes, n.KeepsBreaksWhole text.toList

theorem Parser.ofTable_keepsBreaksWhole {table : List (String × SyntaxNode)}
    (h : ∀ e ∈ table, ∀ n ∈ e.2.nodes, n.KeepsBreaksWhole e.1.toList) : (ofTable table).KeepsBreaksWhole :=
  fun _ _ herrors => of_ofTable (P := fun text root => ∀ n ∈ root.nodes, n.KeepsBreaksWhole text.toList) h herrors

namespace TypeScript

open SyntaxNode

section
variable {path relativePath file : Path} {text : String} {tree : SyntaxTree} {source : List Char}
  {n statement module clause list : SyntaxNode} {c : ClassDecl} {i : ImportDecl} {k : Constructor} {P : String → Prop}

/-! ## Texts of parameters -/

theorem decoratorKind_token {token : String} (h : decoratorKind source n = .token token) :
    ∃ m ∈ n.nodes, token = m.text source := by
  unfold decoratorKind at h
  split at h
  · cases h
  · rename_i expression hexpression
    have hmem := (mem_namedChildren_iff.mp (List.mem_of_head? hexpression)).1
    split at h
    · obtain ⟨arguments, harguments, htoken⟩ := DecoratorKind.mem_of_classify h
      obtain rfl := Option.some.inj harguments
      cases hlist : expression.childIn? "arguments" with
      | none =>
        rw [hlist] at htoken
        cases htoken
      | some list =>
        rw [hlist] at htoken
        obtain ⟨m, hm, rfl⟩ := List.mem_map.mp htoken
        have hargument := (mem_namedChildren_iff.mp (List.mem_of_mem_filter hm)).1
        have hbelow := mem_nodes_trans (mem_nodes_of_mem_children hargument)
          (mem_nodes_of_mem_children (mem_children_of_childIn? hlist).1)
        exact ⟨m, mem_nodes_trans hbelow (mem_nodes_of_mem_children hmem), rfl⟩
    · obtain ⟨arguments, harguments, -⟩ := DecoratorKind.mem_of_classify h
      cases harguments

theorem readPattern_text (hempty : P "") (h : ∀ m ∈ n.nodes, P (m.text source)) : P (readPattern source n).1 := by
  unfold readPattern
  split
  · exact hempty
  · rename_i pattern hpattern
    have hmem := mem_nodes_of_mem_children (mem_children_of_childIn? hpattern).1
    split
    · cases hname : pattern.namedChildren.head? with
      | none => exact hempty
      | some name =>
        have hname := (mem_namedChildren_iff.mp (List.mem_of_head? hname)).1
        exact h name (mem_nodes_trans (mem_nodes_of_mem_children hname) hmem)
    · split <;> exact h pattern hmem

theorem readType_text {type : String} (htype : readType source n = some type) : ∃ m ∈ n.nodes, type = m.text source := by
  obtain ⟨m, hm, rfl⟩ := Option.map_eq_some_iff.mp htype
  obtain ⟨declared, hdeclared, hm⟩ := Option.bind_eq_some_iff.mp hm
  have hmem := (mem_namedChildren_iff.mp (List.mem_of_head? hm)).1
  exact ⟨m, mem_nodes_trans (mem_nodes_of_mem_children hmem)
    (mem_nodes_of_mem_children (mem_children_of_childIn? hdeclared).1), rfl⟩

/-- What a field takes over from a parameter are texts of nodes. -/
theorem readParameter_hasTexts (hempty : P "") (h : ∀ m ∈ n.nodes, P (m.text source)) :
    (readParameter source n).HasTexts P := by
  rw [readParameter_eq]
  refine ⟨readPattern_text hempty h, ?_, ?_⟩
  · intro type htype
    obtain ⟨m, hm, rfl⟩ := readType_text htype
    exact h m hm
  · intro d hd token htoken
    obtain ⟨decorator, hmem, rfl⟩ := List.mem_map.mp hd
    have hbelow := mem_nodes_of_mem_children (List.mem_of_mem_filter hmem)
    obtain ⟨m, hm, rfl⟩ := decoratorKind_token htoken
    exact h m (mem_nodes_trans hm hbelow)

theorem readClass?_hasTexts (hempty : P "") (h : ∀ m ∈ n.nodes, P (m.text source))
    (hread : readClass? file source n = some c) : ∀ q ∈ c.parameters, q.HasTexts P := by
  obtain ⟨name, body, hclass, rfl⟩ := readClass?_eq_some hread
  intro q hq
  cases hk : findConstructor? source body with
  | none => simp [ClassDecl.parameters, hk] at hq
  | some k =>
    obtain ⟨method, list, hmethod, hparameters, -⟩ := findConstructor?_eq_some hk
    simp only [ClassDecl.parameters, hk, hparameters] at hq
    obtain ⟨parameter, hparameter, rfl⟩ := List.mem_map.mp hq
    have hlist := mem_nodes_trans (mem_nodes_of_mem_children (mem_children_of_childIn? hmethod.parameters).1)
      (mem_nodes_of_mem_children (mem_members_iff.mp hmethod.member).1)
    have hbelow := mem_nodes_trans hlist (mem_nodes_of_mem_children hclass.mem_body)
    have hmem := mem_nodes_of_mem_children (mem_namedChildren_iff.mp (List.mem_of_mem_filter hparameter)).1
    exact readParameter_hasTexts hempty fun m hm => h m (mem_nodes_trans hm (mem_nodes_trans hmem hbelow))

/-! ## Offsets -/

/-- Behind a sign other than a carriage return no line break is cut. -/
theorem splitsBreak_behind {start stop : Nat} {part : List Char}
    (h : (⟨start, stop⟩ : TextRange).Holds source part) (hne : part ≠ []) (hlast : part.getLast? ≠ some '\r') :
    splitsBreak source stop = false := by
  obtain ⟨before, after, rfl, -, hstop⟩ := h
  replace hstop : stop = byteLength (before ++ part) := hstop
  rw [hstop]
  refine splitsBreak_of_getLast?_ne ?_
  rwa [List.getLast?_append_of_ne_nil _ hne]

/-- In front of a sign other than a line feed no line break is cut. -/
theorem splitsBreak_before {start stop : Nat} {part : List Char}
    (h : (⟨start, stop⟩ : TextRange).Holds source part) (hne : part ≠ []) (hhead : part.head? ≠ some '\n') :
    splitsBreak source start = false := by
  obtain ⟨before, after, rfl, hstart, -⟩ := h
  replace hstart : start = byteLength before := hstart
  rw [hstart, List.append_assoc]
  refine splitsBreak_of_head?_ne ?_
  rwa [List.head?_append_of_ne_nil _ hne]

/-- The fields of a class are inserted behind its brace. -/
theorem bodyStart_whole (h : n.ArePlaced source) (hshaped : n.AreShaped) (hread : readClass? file source n = some c) :
    splitsBreak source c.bodyStart = false := by
  obtain ⟨name, body, hclass, rfl⟩ := readClass?_eq_some hread
  have hbraces := (hshaped.child hclass.mem_body body (self_mem_nodes _)).classBody hclass.kind_body
  exact splitsBreak_behind ((h.child hclass.mem_body).holds_opening hbraces.1) (by decide) (by decide)

/-- Parameters are removed up to their parenthesis. -/
theorem parameterList_stop_whole (h : n.ArePlaced source) (hshaped : n.AreShaped)
    (hread : readClass? file source n = some c) : splitsBreak source c.parameterList.stop = false := by
  cases hk : c.constructor? with
  | none =>
    have hempty : c.parameterList = .empty c.bodyStart := by simp [ClassDecl.parameterList, hk]
    rw [hempty]
    exact bodyStart_whole h hshaped hread
  | some k =>
    obtain ⟨body, method, list, hlist, hfrom⟩ := exists_list hshaped hread hk
    have hparens := (hshaped list hlist.mem_nodes).parameterList hlist.kind_list
    obtain ⟨start, hstart, hholds⟩ := (h.of_mem hlist.mem_nodes).holds_closing hparens.2
    have hlength : byteLength ")".toList = 1 := rfl
    have hstop : c.parameterList.stop = start := by
      simp only [ClassDecl.parameterList, hk, hfrom.parameterList, innerRange]
      omega
    rw [hstop]
    exact splitsBreak_before hholds (by decide) (by decide)

/-- A list of names is changed behind a name or its brace, and up to a name. -/
theorem readList_whole (h : list.ArePlaced source) (hshaped : list.AreShaped) (hkind : list.kind = "named_imports")
    (hwhole : ∀ m ∈ list.nodes, m.KeepsBreaksWhole source) :
    (readList source list).insertion.At (fun range => splitsBreak source range.stop = false) ∧
      ∀ s ∈ (readList source list).typeOnlyNamed, splitsBreak source s.modifier.stop = false := by
  constructor
  · unfold readList
    cases hlast : (specifiers list).getLast? with
    | some last =>
      obtain ⟨hmem, -, hkind'⟩ := mem_specifiers_iff.mp (List.mem_of_getLast? hlast)
      exact (hwhole last (mem_nodes_of_mem_children hmem)).stop (by simp [isImportName, hkind'])
    | none =>
      have hbraces := (hshaped list (self_mem_nodes _)).nameList hkind
      exact splitsBreak_behind (h.holds_opening hbraces.1) (by decide) (by decide)
  · intro s hs
    obtain ⟨specifier, hspecifier, hs⟩ := List.mem_filterMap.mp hs
    obtain ⟨-, keyword, imported, -, -, hmodifier⟩ := typeSpecifier?_eq_some hs
    have hmem := mem_nodes_of_mem_children (mem_specifiers_iff.mp hspecifier).1
    rw [hmodifier.range_eq]
    exact (hwhole imported
      (mem_nodes_trans (mem_nodes_of_mem_children (mem_children_of_childIn? hmodifier.inName).1) hmem)).start

theorem readClause_whole (h : clause.ArePlaced source) (hshaped : clause.AreShaped)
    (hwhole : ∀ m ∈ clause.nodes, m.KeepsBreaksWhole source) :
    (readClause source clause).insertion.At (fun range => splitsBreak source range.stop = false) ∧
      ∀ s ∈ (readClause source clause).typeOnlyNamed, splitsBreak source s.modifier.stop = false := by
  rcases readClause_eq source clause with ⟨list, hlist, hkind, heq⟩ | ⟨-, htypes, hinsertion⟩
  · rw [heq]
    exact readList_whole (h.child hlist) (hshaped.child hlist) hkind
      fun m hm => hwhole m (mem_nodes_trans hm (mem_nodes_of_mem_children hlist))
  · rw [htypes]
    refine ⟨?_, by simp⟩
    rcases hinsertion with ⟨name, hname, hkind, hinsertion⟩ | ⟨reason, hinsertion⟩
    · rw [hinsertion]
      exact (hwhole name (mem_nodes_of_mem_children hname)).stop (by simp [isImportName, hkind])
    · rw [hinsertion]
      exact trivial

/-- An import statement is not changed in the middle of a line break. -/
theorem readImport_whole (h : statement.ArePlaced source) (hshaped : statement.AreShaped)
    (hwhole : ∀ m ∈ statement.nodes, m.KeepsBreaksWhole source) :
    (readImport source statement module).ChangesAt fun range => splitsBreak source range.stop = false := by
  cases hclause : clauseOf? statement with
  | none =>
    have hsideEffect : (readImport source statement module).insertion = ImportClause.sideEffect.insertion := by
      simp [readImport, hclause]
    have hnone : (readImport source statement module).typeOnlyNamed = [] := by
      simp [readImport, hclause, ImportClause.sideEffect, ImportClause.unsupported]
    refine ⟨?_, by simp [hnone]⟩
    rw [hsideEffect]
    exact trivial
  | some clause =>
    have hmem := (isClauseOf_of_clauseOf? hclause).1
    have hread := readClause_whole (h.child hmem) (hshaped.child hmem)
      fun m hm => hwhole m (mem_nodes_trans hm (mem_nodes_of_mem_children hmem))
    have hinsertion : (readImport source statement module).insertion = (readClause source clause).insertion := by
      simp [readImport, hclause]
    have htypes : (readImport source statement module).typeOnlyNamed = (readClause source clause).typeOnlyNamed := by
      simp [readImport, hclause]
    exact ⟨by rw [hinsertion]; exact hread.1, by rw [htypes]; exact hread.2⟩

end

end TypeScript

end FieldInjection
