import FieldInjection.Proofs.TypeScript.ImportPlaces
import Mathlib.Data.List.Forall2

/-!
# The offsets that are read from a file

All that edits are planned on are offsets of classes, parameters and import statements, which are those of nodes or one
byte from them. Where nodes stand where they say and brackets where the grammar has them, what is read from a file has
offsets that are boundaries of its text and in order, with the brackets, decorators and modifiers at them that the
planning counts on (`readUnit_isPlaced`).
-/

namespace FieldInjection

/-- The decorators of a parameter stand in the text one behind the other, all within its range. -/
def Parameter.CoversDecorators (text : List Char) (q : Parameter) : Prop :=
  ∃ ranges : List TextRange,
    List.Forall₂ (fun d r => r.Holds text d.text.toList ∧ d.text.toList.head? = some '@') q.decorators ranges ∧
      ranges.Pairwise (fun r s => r.stop ≤ s.start) ∧
        ∀ r ∈ ranges, q.range.start ≤ r.start ∧ r.stop ≤ q.range.stop

structure Parameter.IsPlacedIn (text : List Char) (q : Parameter) : Prop where
  isValidFor : q.range.isValidFor text = true
  start_lt_stop : q.range.start < q.range.stop
  decorators : q.CoversDecorators text

/-- The list of parameters stands in parentheses, and the parameters stand in it one behind the other. -/
structure Constructor.IsPlacedIn (text : List Char) (k : Constructor) : Prop where
  isValidFor : k.parameterList.isValidFor text = true
  parentheses : k.parameterList.IsBetween text '(' ')'
  parameters : ∀ q ∈ k.parameters, q.IsPlacedIn text
  inside : ∀ q ∈ k.parameters, k.parameterList.start ≤ q.range.start ∧ q.range.stop ≤ k.parameterList.stop
  ordered : k.parameters.Pairwise fun q q' => q.range.stop ≤ q'.range.start

/-- The body of a class begins behind a brace within its range, with the list of parameters behind that. -/
structure ClassDecl.IsPlacedIn (text : List Char) (c : ClassDecl) : Prop where
  isValidFor : c.range.isValidFor text = true
  bodyStart_boundary : isBoundary text c.bodyStart = true
  start_lt_bodyStart : c.range.start < c.bodyStart
  bodyStart_le_stop : c.bodyStart ≤ c.range.stop
  brace : ∃ before after, text = before ++ '{' :: after ∧ c.bodyStart = byteLength (before ++ ['{'])
  constructor : ∀ k, c.constructor? = some k →
    k.IsPlacedIn text ∧ c.bodyStart ≤ k.parameterList.start ∧ k.parameterList.stop ≤ c.range.stop

/-- Where an import statement can be changed lies strictly within it. The modifier of a name begins with its keyword. -/
structure ImportDecl.IsPlacedIn (text : List Char) (i : ImportDecl) : Prop where
  isValidFor : i.range.isValidFor text = true
  changesAt : i.ChangesAt fun range => range.isValidFor text = true ∧ range.IsStrictlyInside i.range
  keyword : ∀ s ∈ i.typeOnlyNamed, ∃ stop, stop ≤ s.modifier.stop ∧
    (⟨s.modifier.start, stop⟩ : TextRange).Holds text "type".toList

namespace TypeScript

open SyntaxNode

/-- The modifier of a name ends where the name starts that is imported. -/
def EndsAtImported (source : List Char) (root : SyntaxNode) (s : TypeSpecifier) : Prop :=
  ∃ specifier ∈ root.nodes, specifier.kind = "import_specifier" ∧
    ∃ imported local', specifier.childIn? "name" = some imported ∧ s.modifier.stop = imported.start ∧
      localName? specifier = some local' ∧ s.name = local'.text source

/-- All offsets that were read from the tree of a file. -/
structure IsPlacedUnit (root : SyntaxNode) (u : SourceUnit) : Prop where
  ascending : u.classes.Pairwise fun c d => c.range.start < d.range.start
  classes : ∀ c ∈ u.classes, c.IsPlacedIn u.text.toList
  imports : ∀ i ∈ u.imports, i.IsPlacedIn u.text.toList
  modifiers : ∀ i ∈ u.imports, ∀ s ∈ i.typeOnlyNamed, EndsAtImported u.text.toList root s

section
variable {source : List Char} {root n m name body method list module : SyntaxNode} {k : Constructor}
  {file : Path} {c : ClassDecl} {i : ImportDecl}

/-! ## Parameters -/

/-- A decorator begins with its sign. -/
theorem head?_text_decorator (h : n.ArePlaced source) (hshaped : n.AreShaped) (hkind : n.kind = "decorator") :
    (n.text source).toList.head? = some '@' := by
  have hbegins := (hshaped n (self_mem_nodes n)).decorator hkind
  have hstop : n.start + 1 ≤ n.stop := by
    obtain ⟨first, rest, hchildren, hfirst, hstart⟩ := exists_of_beginsWith hbegins
    have hmem : first ∈ n.children := by simp [hchildren]
    have hlength : first.stop = first.start + 1 := (h.child hmem).isPlaced.stop_token hfirst
    have := (h.isPlaced.inside first hmem).2
    omega
  obtain ⟨rest, hrest⟩ := (h.holds_opening hbegins).isPrefix h.isPlaced.holds hstop
  rw [← hrest]
  rfl

/-- A parameter that is read from a node lies where the node lies, with its decorators. -/
theorem readParameter_isPlacedIn (h : n.ArePlaced source) (hshaped : n.AreShaped) (hlt : n.start < n.stop) :
    (readParameter source n).IsPlacedIn source where
  isValidFor := by
    rw [range_readParameter]
    exact h.isPlaced.isValidFor
  start_lt_stop := by
    rw [range_readParameter]
    exact hlt
  decorators := by
    have hsub : (n.children.filter (·.kind == "decorator")).Sublist n.children := List.filter_sublist
    refine ⟨(n.children.filter (·.kind == "decorator")).map range, ?_, ?_, ?_⟩
    · rw [decorators_readParameter, List.forall₂_map_left_iff, List.forall₂_map_right_iff, List.forall₂_same]
      intro d hd
      obtain ⟨hd, hkind⟩ := List.mem_filter.mp hd
      exact ⟨(h.child hd).isPlaced.holds, head?_text_decorator (h.child hd) (hshaped.child hd) (by simpa using hkind)⟩
    · rw [List.pairwise_map]
      exact h.isPlaced.ordered.sublist hsub
    · rw [range_readParameter]
      intro r hr
      obtain ⟨d, hd, rfl⟩ := List.mem_map.mp hr
      exact h.isPlaced.inside d (hsub.subset hd)

/-! ## Constructors -/

/-- What is left of a node in parentheses without them. -/
theorem innerRange_isBetween (h : list.ArePlaced source) (henclosed : list.IsEnclosed "(" ")") :
    (innerRange list).isValidFor source = true ∧ (innerRange list).IsBetween source '(' ')' := by
  have hle : list.start + 1 + 1 ≤ list.stop := h.brackets_le henclosed (by decide)
  have hopening := h.holds_opening henclosed.1
  obtain ⟨start, hlength, hclosing⟩ := h.holds_closing henclosed.2
  have hstart : start = list.stop - 1 := by
    have hlength : start + 1 = list.stop := hlength
    omega
  obtain ⟨before, between, after, hsource, -, hfrom, hto⟩ := hopening.exists_between hclosing
    (by show list.start + 1 ≤ start; omega)
  have hfrom : (innerRange list).start = byteLength (before ++ "(".toList) := hfrom
  have hto : (innerRange list).stop = byteLength (before ++ "(".toList ++ between) := hstart.symm.trans hto
  constructor
  · -- both of its ends are those of a prefix of the text
    simp only [TextRange.isValidFor, Bool.and_eq_true, decide_eq_true_eq]
    refine ⟨⟨by show list.start + 1 ≤ list.stop - 1; omega, ?_⟩, ?_⟩
    · rw [hfrom, hsource]
      simp only [List.append_assoc]
      rw [← List.append_assoc]
      exact isBoundary_byteLength_append _ _
    · rw [hto, hsource, List.append_assoc]
      exact isBoundary_byteLength_append _ _
  · refine ⟨before, between, after, ?_, hfrom, ?_⟩
    · rw [hsource]
      simp
    · rw [hto]
      simp

/-- A constructor that is read from a body lies in it. -/
theorem constructor_isPlacedIn (h : body.ArePlaced source) (hshaped : body.AreShaped)
    (hkind : body.kind = "class_body") (hk : findConstructor? source body = some k) :
    k.IsPlacedIn source ∧ body.start + 1 ≤ k.parameterList.start ∧ k.parameterList.stop ≤ body.stop := by
  obtain ⟨method, list, hmethod, hparameters, hrange⟩ := findConstructor?_eq_some hk
  obtain ⟨hmem, hnamed, -⟩ := mem_members_iff.mp hmethod.member
  have hlist := (mem_children_of_childIn? hmethod.parameters).1
  have hbelow : list ∈ body.nodes :=
    mem_nodes_trans (mem_nodes_of_mem_children hlist) (mem_nodes_of_mem_children hmem)
  have hplaced := h.of_mem hbelow
  have hshapedList := hshaped.of_mem hbelow
  have hlistKind : list.kind = "formal_parameters" :=
    (hshaped _ (mem_nodes_of_mem_children hmem)).kind_parameters hmethod.kind hmethod.parameters
  have henclosed := (hshapedList list (self_mem_nodes _)).parameterList hlistKind
  obtain ⟨hvalid, hbetween⟩ := innerRange_isBetween hplaced henclosed
  -- the method stands behind the brace of the body
  have hbehind : body.start + 1 ≤ method.start := h.behind_token ((hshaped body (self_mem_nodes _)).classBody hkind).1
    (mem_nodes_of_mem_children hmem) (ne_of_mem_children hmem) (isToken_eq_false_of_isNamed hnamed)
  have hmethodList := (h.child hmem).isPlaced.inside list hlist
  have hmethodBody := h.isPlaced.inside method hmem
  -- the parameters are named children of the list
  have hsub : (list.namedChildren.filter isParameter).Sublist list.children :=
    List.filter_sublist.trans List.filter_sublist
  have hchild : ∀ n ∈ list.namedChildren.filter isParameter, n ∈ list.children ∧ n.isNamed = true :=
    fun n hn => mem_namedChildren_iff.mp (List.mem_of_mem_filter hn)
  have hall : ∀ {P : Parameter → Prop}, (∀ n ∈ list.children, n.isNamed = true → P (readParameter source n)) →
      ∀ q ∈ k.parameters, P q := by
    intro P hP q hq
    rw [hparameters] at hq
    obtain ⟨n, hn, rfl⟩ := List.mem_map.mp hq
    exact hP n (hchild n hn).1 (hchild n hn).2
  refine ⟨⟨?_, ?_, ?_, ?_, ?_⟩, ?_, ?_⟩
  · rw [hrange]
    exact hvalid
  · rw [hrange]
    exact hbetween
  · exact hall fun n hn _ =>
      readParameter_isPlacedIn (hplaced.child hn) (hshapedList.child hn) (hplaced.isPlaced.nonempty n hn)
  · rw [hrange]
    refine hall fun n hn hnamed => ?_
    have hstart := hplaced.behind_token henclosed.1 (mem_nodes_of_mem_children hn) (ne_of_mem_children hn)
      (isToken_eq_false_of_isNamed hnamed)
    have hstop := hplaced.before_token henclosed.2 (mem_nodes_of_mem_children hn) (ne_of_mem_children hn)
      (isToken_eq_false_of_isNamed hnamed)
    rw [range_readParameter]
    exact ⟨hstart, Nat.le_sub_of_add_le hstop⟩
  · rw [hparameters, List.pairwise_map]
    refine (hplaced.isPlaced.ordered.sublist hsub).imp fun hlt => ?_
    rwa [range_readParameter, range_readParameter]
  · rw [hrange]
    show body.start + 1 ≤ list.start + 1
    omega
  · rw [hrange]
    show list.stop - 1 ≤ body.stop
    omega

/-! ## Classes -/

/-- Every class that stands below another one starts behind its beginning. -/
theorem start_lt_of_isClass (h : n.ArePlaced source) (hshaped : n.AreShaped) (hn : n.isClass = true)
    (hm : m ∈ n.nodes) (hne : m ≠ n) (hclass : m.isClass = true) : n.start < m.start := by
  have hkind : m.kind = "class_declaration" ∨ m.kind = "abstract_class_declaration" := by
    simpa [isClass] using hclass
  obtain ⟨first, hfirst, hany⟩ := (Option.any_eq_true _ _).mp ((hshaped n (self_mem_nodes n)).classDeclaration hn)
  obtain ⟨rest, hchildren⟩ := List.head?_eq_some_iff.mp hfirst
  have hmem : first ∈ n.children := by simp [hchildren]
  have hplaced := h.child hmem
  have hstart := (h.isPlaced.inside first hmem).1
  have hnonempty := h.isPlaced.nonempty first hmem
  rcases mem_nodes_iff.mp hm with rfl | ⟨c, hc, hm⟩
  · exact absurd rfl hne
  rw [hchildren] at hc
  rcases List.mem_cons.mp hc with rfl | hc
  · -- the first part is a keyword, or a decorator, which begins with a sign of its own
    have hkinds : m.kind ≠ "class" ∧ m.kind ≠ "abstract" ∧ m.kind ≠ "@" ∧ m.kind ≠ "decorator" := by
      rcases hkind with h | h <;> rw [h] <;> decide
    have hkeyword : ∀ keyword, c.isToken keyword = true → m.kind ≠ keyword → False := by
      intro keyword htoken hne
      rw [hplaced.isPlaced.nodes_token htoken hm] at hne
      exact hne (isToken_iff.mp htoken).2
    rw [Bool.or_eq_true, Bool.or_eq_true, beq_iff_eq] at hany
    rcases hany with (htoken | htoken) | hdecorator
    · exact (hkeyword _ htoken hkinds.1).elim
    · exact (hkeyword _ htoken hkinds.2.1).elim
    · -- what stands in a decorator stands behind its sign, which takes up a byte
      have hbehind := hplaced.behind_token ((hshaped.child hmem c (self_mem_nodes c)).decorator hdecorator) hm
        (by rintro rfl; exact hkinds.2.2.2 hdecorator) (isToken_eq_false hkinds.2.2.1)
      have hlength : byteLength "@".toList = 1 := rfl
      omega
  · -- the other parts stand behind the first one
    have hordered := h.isPlaced.ordered
    rw [hchildren] at hordered
    have hle := (List.pairwise_cons.mp hordered).1 c hc
    have := ((h.child (by simp [hchildren, hc])).within hm).1
    omega

/-- A class that is read from a node lies where the node lies. -/
theorem readClass?_isPlacedIn (h : n.ArePlaced source) (hshaped : n.AreShaped) (hc : readClass? file source n = some c) :
    c.IsPlacedIn source := by
  obtain ⟨name, body, hclass, rfl⟩ := readClass?_eq_some hc
  have hplaced := h.child hclass.mem_body
  have hshapedBody := hshaped.child hclass.mem_body
  have henclosed := (hshapedBody body (self_mem_nodes _)).classBody hclass.kind_body
  obtain ⟨hstart, hstop⟩ := h.isPlaced.inside body hclass.mem_body
  have hroom : body.start + 1 + 1 ≤ body.stop := hplaced.brackets_le henclosed (by decide)
  obtain ⟨before, after, hsource, -, hbrace⟩ := hplaced.holds_opening henclosed.1
  have hbrace : body.start + 1 = byteLength (before ++ ['\x7b']) := hbrace
  refine ⟨h.isPlaced.isValidFor, ?_, ?_, ?_, ⟨before, after, ?_, hbrace⟩, ?_⟩
  · show isBoundary source (body.start + 1) = true
    rw [hbrace, hsource]
    exact isBoundary_byteLength_append _ _
  · show n.start < body.start + 1
    omega
  · show body.start + 1 ≤ n.stop
    omega
  · rw [hsource]
    simp
  · intro k hk
    obtain ⟨hk, hfrom, hto⟩ := constructor_isPlacedIn hplaced hshapedBody hclass.kind_body hk
    exact ⟨hk, hfrom, Nat.le_trans hto hstop⟩

theorem IsClassOf.isClass (h : IsClassOf n name body) : n.isClass = true := by
  rcases h.kind with hkind | hkind <;> simp [SyntaxNode.isClass, hkind]

/-- Classes are found in the order in which they start, no two at the same offset. -/
theorem pairwise_filterMap_readClass? (h : root.ArePlaced source) (hshaped : root.AreShaped) :
    (root.nodes.filterMap (readClass? file source)).Pairwise fun c d => c.range.start < d.range.start := by
  rw [List.pairwise_filterMap]
  refine h.pairwise_nodes.imp_of_mem ?_
  intro n m hn hm hnm c hc d hd
  obtain ⟨name, body, hclass, rfl⟩ := readClass?_eq_some hc
  obtain ⟨name', body', hclass', rfl⟩ := readClass?_eq_some hd
  show n.start < m.start
  rcases hnm with ⟨hbelow, hne⟩ | happart
  · exact start_lt_of_isClass (h.of_mem hn) (hshaped.of_mem hn) hclass.isClass hbelow hne hclass'.isClass
  · -- a class is not empty
    have hinside := (h n hn).inside body hclass.mem_body
    have hnonempty := (h n hn).nonempty body hclass.mem_body
    omega

/-- The classes of a file are listed as they are found. -/
theorem classes_readTree {path relativePath : Path} {text : String} {tree : SyntaxTree}
    (h : tree.root.ArePlaced text.toList) (hshaped : tree.root.AreShaped) :
    (readTree path relativePath text tree).classes = tree.root.nodes.filterMap (readClass? path text.toList) :=
  List.mergeSort_of_pairwise ((pairwise_filterMap_readClass? h hshaped).imp fun hlt => by
    simpa using Nat.le_of_lt hlt)

/-! ## Import statements -/

/-- The import statements of a file are listed as they are found. -/
theorem imports_readTree {path relativePath : Path} {text : String} {tree : SyntaxTree}
    (h : tree.root.ArePlaced text.toList) :
    (readTree path relativePath text tree).imports = tree.root.nodes.filterMap (readImport? text.toList) := by
  refine List.mergeSort_of_pairwise ?_
  rw [List.pairwise_filterMap]
  refine h.pairwise_nodes.imp_of_mem ?_
  intro n m hn hm hnm i hi j hj
  obtain ⟨module, -, rfl⟩ := readImport?_eq_some hi
  obtain ⟨module', -, rfl⟩ := readImport?_eq_some hj
  refine decide_eq_true (p := n.start ≤ m.start) ?_
  rcases hnm with ⟨hbelow, -⟩ | happart
  · exact ((h.of_mem hn).within hbelow).1
  · exact Nat.le_trans (h n hn).start_le_stop happart

/-- The names of a statement that have a modifier are specifiers of its clause. -/
theorem exists_specifier {s : TypeSpecifier}
    (hs : s ∈ (readImport source n module).typeOnlyNamed) : ∃ specifier ∈ n.nodes, specifier.kind = "import_specifier" ∧
      ∃ local' keyword imported, localName? specifier = some local' ∧ s.name = local'.text source ∧
        IsModifierOf specifier keyword imported s.modifier := by
  cases hclause : clauseOf? n with
  | none => simp [readImport, hclause, ImportClause.sideEffect, ImportClause.unsupported] at hs
  | some clause =>
    have heq : (readImport source n module).typeOnlyNamed = (readClause source clause).typeOnlyNamed := by
      simp [readImport, hclause]
    rw [heq] at hs
    rcases readClause_eq source clause with ⟨list, hlist, -, hlistEq⟩ | ⟨-, hnone, -⟩
    · rw [hlistEq] at hs
      obtain ⟨specifier, hspecifier, hs⟩ := List.mem_filterMap.mp hs
      obtain ⟨hmem, -, hkind⟩ := mem_specifiers_iff.mp hspecifier
      have hbelow := mem_nodes_trans (mem_nodes_of_mem_children hmem)
        (mem_nodes_trans (mem_nodes_of_mem_children hlist)
          (mem_nodes_of_mem_children (isClauseOf_of_clauseOf? hclause).1))
      exact ⟨specifier, hbelow, hkind, typeSpecifier?_eq_some hs⟩
    · rw [hnone] at hs
      cases hs

/-- An import statement that is read from a node is changed within the node. -/
theorem readImport?_isPlacedIn (h : n.ArePlaced source) (hshaped : n.AreShaped)
    (hi : readImport? source n = some i) : i.IsPlacedIn source := by
  obtain ⟨module, hmodule, rfl⟩ := readImport?_eq_some hi
  refine ⟨h.isPlaced.isValidFor, ?_, ?_⟩
  · refine (changesAt_readImport h hshaped).imp ?_
    rintro range ⟨clause, hclause, hplace⟩
    have hstart := (h.isPlaced.inside clause hclause.1).1
    have hstop := clause_stop_lt h hshaped hmodule hclause
    exact ⟨hplace.isValidFor, Nat.lt_of_le_of_lt hstart hplace.start_lt, Nat.lt_of_le_of_lt hplace.stop_le hstop⟩
  · intro s hs
    obtain ⟨specifier, hmem, hkind, -, keyword, imported, -, -, hmodifier⟩ := exists_specifier hs
    have hplaced := h.of_mem hmem
    obtain ⟨hkeyword, -, hle⟩ := hmodifier.keyword_le hplaced (hshaped.of_mem hmem) hkind
    rw [hmodifier.range_eq]
    exact ⟨keyword.stop, hle, (hplaced.child hkeyword).isPlaced.holds_token hmodifier.isToken⟩

theorem endsAtImported (hn : n ∈ root.nodes) {s : TypeSpecifier}
    (hs : s ∈ (readImport source n module).typeOnlyNamed) : EndsAtImported source root s := by
  obtain ⟨specifier, hmem, hkind, local', keyword, imported, hlocal, hname, hmodifier⟩ := exists_specifier hs
  refine ⟨specifier, mem_nodes_trans hmem hn, hkind, imported, local', hmodifier.inName, ?_, hlocal, hname⟩
  rw [hmodifier.range_eq]

end

/-- **What is read from a file has offsets of its text.** Take a parser whose nodes stand where they say and have the
shapes of the grammar. Of any text that it finds no errors in, the classes are listed by where they start, and none
starts where another one does. Each begins before its body, which is opened by a brace right before it; the list of
parameters of its constructor lies behind that, directly between two parentheses; the parameters lie in it one behind
the other, each with its decorators, and none is empty. Import statements are changed strictly within them; the
modifier of a name begins with the keyword `type` and ends where the name starts that is imported. All these offsets
are boundaries of the text. -/
theorem readUnit_isPlaced {parse : Parser} (hplaces : parse.PlacesNodes) (hgrammar : parse.FollowsGrammar)
    (path relativePath : Path) (text : String)
    (herrors : (readUnit path relativePath text parse).hasSyntaxErrors = false) :
    IsPlacedUnit (parse (grammarOf path) text).root (readUnit path relativePath text parse) := by
  have h := hplaces (grammarOf path) text herrors
  have hshaped := hgrammar (grammarOf path) text herrors
  refine ⟨?_, ?_, ?_, ?_⟩
  · rw [readUnit, classes_readTree h hshaped]
    exact pairwise_filterMap_readClass? h hshaped
  · intro c hc
    obtain ⟨n, hn, hread⟩ := mem_classes_readTree hc
    exact readClass?_isPlacedIn (h.of_mem hn) (hshaped.of_mem hn) hread
  · intro i hi
    obtain ⟨n, hn, hread⟩ := mem_imports_readTree hi
    exact readImport?_isPlacedIn (h.of_mem hn) (hshaped.of_mem hn) hread
  · intro i hi s hs
    obtain ⟨n, hn, hread⟩ := mem_imports_readTree hi
    obtain ⟨module, -, rfl⟩ := readImport?_eq_some hread
    exact endsAtImported hn hs

/-- A file with a modifier in its import list, and a class with a decorated parameter. -/
def decoratedClassText : String :=
  "import C, \x7b type T \x7d from 'm';\nclass X \x7b\n  constructor(@Q() private a: A, b: B) \x7b\x7d\n\x7d\n"

def decoratedClassTree : SyntaxNode :=
  .rule "program" none 0 85 [
    .rule "import_statement" none 0 30 [
      .token "import" 0,
      .rule "import_clause" none 7 20 [
        .rule "identifier" none 7 8 [], .token "," 8,
        .rule "named_imports" none 10 20 [
          .token "\x7b" 10,
          .rule "import_specifier" none 12 18 [.token "type" 12, .rule "identifier" (some "name") 17 18 []],
          .token "\x7d" 19]],
      .token "from" 21,
      .rule "string" (some "source") 26 29 [.token "'" 26, .rule "string_fragment" none 27 28 [], .token "'" 28],
      .token ";" 29],
    .rule "class_declaration" none 31 84 [
      .token "class" 31, .rule "type_identifier" (some "name") 37 38 [],
      .rule "class_body" (some "body") 39 84 [
        .token "\x7b" 39,
        .rule "method_definition" none 43 82 [
          .rule "property_identifier" (some "name") 43 54 [],
          .rule "formal_parameters" (some "parameters") 54 79 [
            .token "(" 54,
            .rule "required_parameter" none 55 72 [
              .rule "decorator" (some "decorator") 55 59 [
                .token "@" 55,
                .rule "call_expression" none 56 59 [
                  .rule "identifier" (some "function") 56 57 [],
                  .rule "arguments" (some "arguments") 57 59 [.token "(" 57, .token ")" 58]]],
              .rule "accessibility_modifier" none 60 67 [.token "private" 60],
              .rule "identifier" (some "pattern") 68 69 [],
              .rule "type_annotation" (some "type") 69 72 [.token ":" 69, .rule "type_identifier" none 71 72 []]],
            .token "," 72,
            .rule "required_parameter" none 74 78 [
              .rule "identifier" (some "pattern") 74 75 [],
              .rule "type_annotation" (some "type") 75 78 [.token ":" 75, .rule "type_identifier" none 77 78 []]],
            .token ")" 78],
          .rule "statement_block" (some "body") 80 82 [.token "\x7b" 80, .token "\x7d" 81]],
        .token "\x7d" 83]]]

/-- What is read from the text of that tree. -/
theorem decoratedClassTree_spec : decoratedClassTree.ArePlaced decoratedClassText.toList ∧
    decoratedClassTree.AreShaped ∧
    (decoratedClassTree.nodes.filterMap (readClass? ⟨"a.ts"⟩ decoratedClassText.toList)).map
        (fun c => (c.range, c.bodyStart, c.parameters.map Parameter.range)) = [(⟨31, 84⟩, 40, [⟨55, 72⟩, ⟨74, 78⟩])] ∧
    (decoratedClassTree.nodes.filterMap (readImport? decoratedClassText.toList)).map
        (fun i => (i.range, i.insertion, i.typeOnlyNamed)) = [(⟨0, 30⟩, .afterLastSpecifier 18, [⟨"T", ⟨12, 17⟩⟩])] := by
  rw [show decoratedClassText.toList = _ from String.toList_ofList]
  decide +kernel

theorem readUnit_isPlaced_decoratedClass :
    let parse := Parser.ofTable [(decoratedClassText, decoratedClassTree)]
    let u := readUnit ⟨"a.ts"⟩ ⟨"a.ts"⟩ decoratedClassText parse
    parse.PlacesNodes ∧ parse.FollowsGrammar ∧ u.hasSyntaxErrors = false ∧
      u.classes.map (fun c => (c.range, c.bodyStart, c.parameters.map Parameter.range)) =
        [(⟨31, 84⟩, 40, [⟨55, 72⟩, ⟨74, 78⟩])] ∧
      u.imports.map (fun i => (i.range, i.insertion, i.typeOnlyNamed)) =
        [(⟨0, 30⟩, .afterLastSpecifier 18, [⟨"T", ⟨12, 17⟩⟩])] ∧
      IsPlacedUnit (parse (grammarOf ⟨"a.ts"⟩) decoratedClassText).root u := by
  intro parse u
  obtain ⟨hplaced, hshaped, hclasses, himports⟩ := decoratedClassTree_spec
  have hplaces : parse.PlacesNodes := Parser.ofTable_placesNodes (List.forall_mem_singleton.mpr hplaced)
  have hgrammar : parse.FollowsGrammar := Parser.ofTable_followsGrammar (List.forall_mem_singleton.mpr hshaped)
  have htree : parse (grammarOf ⟨"a.ts"⟩) decoratedClassText = ⟨decoratedClassTree, false⟩ :=
    Parser.ofTable_cons_self ..
  have herrors : u.hasSyntaxErrors = false := congrArg SyntaxTree.hasError htree
  have hread : u = readTree ⟨"a.ts"⟩ ⟨"a.ts"⟩ decoratedClassText ⟨decoratedClassTree, false⟩ :=
    congrArg (readTree _ _ _) htree
  refine ⟨hplaces, hgrammar, herrors, ?_, ?_,
    readUnit_isPlaced hplaces hgrammar ⟨"a.ts"⟩ ⟨"a.ts"⟩ decoratedClassText herrors⟩
  · rw [hread, classes_readTree hplaced hshaped]
    exact hclasses
  · rw [hread, imports_readTree hplaced]
    exact himports

end TypeScript

end FieldInjection
