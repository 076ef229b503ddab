import FieldInjection.Proofs.Planning.ImportChanges
import FieldInjection.Proofs.TypeScript.Grammar
import FieldInjection.Proofs.TypeScript.Reading

/-!
# Where import statements are changed

An import statement is changed within its clause: behind the last name of its list or its brace, behind a default
binding, or from a keyword `type` up to the name behind it (`changesAt_readImport`).
-/

namespace FieldInjection.TypeScript

open SyntaxNode

section
variable {source : List Char} {statement clause list specifier module : SyntaxNode} {s : TypeSpecifier} {i : ImportDecl}

/-- A range of the text that begins inside a clause and ends in it. -/
structure IsPlaceIn (source : List Char) (clause : SyntaxNode) (range : TextRange) : Prop where
  isValidFor : range.isValidFor source = true
  start_lt : clause.start < range.start
  stop_le : range.stop ≤ clause.stop

/-- Behind a node that stands in a clause there is room for a name. -/
theorem isPlaceIn_stop {m : SyntaxNode} (h : clause.ArePlaced source) (hm : m ∈ clause.nodes) (hne : m ≠ clause) :
    IsPlaceIn source clause (.empty m.stop) where
  isValidFor := by
    have hboundary := (h m hm).stop_boundary
    simp [TextRange.isValidFor, TextRange.empty, hboundary]
  start_lt := by
    have hwithin := (h.within hm).1
    have hnonempty := h.start_lt_stop hm hne
    exact Nat.lt_of_le_of_lt hwithin hnonempty
  stop_le := (h.within hm).2

/-! ## Lists of names -/

theorem mem_specifiers_iff : specifier ∈ specifiers list ↔
    specifier ∈ list.children ∧ specifier.isNamed = true ∧ specifier.kind = "import_specifier" := by
  rw [specifiers, List.mem_filter, mem_namedChildren_iff, beq_iff_eq, and_assoc]

/-- The modifier of a specifier begins with its keyword and ends at its name. -/
structure IsModifierOf (specifier keyword imported : SyntaxNode) (range : TextRange) : Prop where
  first : specifier.children.head? = some keyword
  isToken : keyword.isToken "type" = true
  inName : specifier.childIn? "name" = some imported
  range_eq : range = ⟨keyword.start, imported.start⟩

theorem isModifierOf_of_typeModifier? {range : TextRange} (h : typeModifier? specifier = some range) :
    ∃ keyword imported, IsModifierOf specifier keyword imported range := by
  unfold typeModifier? at h
  split at h
  · rename_i keyword imported hkeyword himported
    split at h
    · rename_i htoken
      exact ⟨keyword, imported, hkeyword, htoken, himported, (Option.some.inj h).symm⟩
    · cases h
  · cases h

/-- The local name of a specifier is the one behind `as`, or else the imported one. -/
theorem typeSpecifier?_eq_some (h : typeSpecifier? source specifier = some s) : ∃ local' keyword imported,
    localName? specifier = some local' ∧ s.name = local'.text source ∧
      IsModifierOf specifier keyword imported s.modifier := by
  unfold typeSpecifier? at h
  split at h
  · rename_i name range hname hrange
    obtain ⟨keyword, imported, hmodifier⟩ := isModifierOf_of_typeModifier? hrange
    obtain rfl := Option.some.inj h
    exact ⟨name, keyword, imported, hname, rfl, hmodifier⟩
  · cases h

/-- The name that is imported stands behind the keyword. -/
theorem IsModifierOf.keyword_le {keyword imported : SyntaxNode} {range : TextRange} (h : specifier.ArePlaced source)
    (hshaped : specifier.AreShaped) (hkind : specifier.kind = "import_specifier")
    (hmodifier : IsModifierOf specifier keyword imported range) :
    keyword ∈ specifier.children ∧ imported ∈ specifier.children ∧ keyword.stop ≤ imported.start := by
  obtain ⟨rest, hchildren⟩ := List.head?_eq_some_iff.mp hmodifier.first
  have himported := (mem_children_of_childIn? hmodifier.inName).1
  have hnamed := (hshaped specifier (self_mem_nodes _)).importSpecifier hkind imported hmodifier.inName
  refine ⟨by simp [hchildren], himported, ?_⟩
  have hordered := h.isPlaced.ordered
  rw [hchildren] at himported hordered
  rcases List.mem_cons.mp himported with rfl | hrest
  · -- a keyword is no name
    rw [(isToken_iff.mp hmodifier.isToken).1] at hnamed
    cases hnamed
  · exact (List.pairwise_cons.mp hordered).1 imported hrest

theorem isPlaceIn_modifier {keyword imported : SyntaxNode} {range : TextRange} (h : clause.ArePlaced source)
    (hshaped : clause.AreShaped) (hspecifier : specifier ∈ clause.nodes) (hkind : specifier.kind = "import_specifier")
    (hstart : clause.start < specifier.start) (hmodifier : IsModifierOf specifier keyword imported range) :
    IsPlaceIn source clause range := by
  have hplaced := h.of_mem hspecifier
  obtain ⟨hkeyword, himported, hle⟩ := hmodifier.keyword_le hplaced (hshaped.of_mem hspecifier) hkind
  have hkeywordStart := (hplaced.isPlaced.inside keyword hkeyword).1
  have himportedStop := (hplaced.isPlaced.inside imported himported).2
  have hkeywordLt := hplaced.isPlaced.nonempty keyword hkeyword
  have himportedLt := hplaced.isPlaced.nonempty imported himported
  have hwithin := (h.within hspecifier).2
  rw [hmodifier.range_eq]
  refine ⟨?_, ?_, ?_⟩
  · simp only [TextRange.isValidFor, Bool.and_eq_true, decide_eq_true_eq]
    exact ⟨⟨by omega, (hplaced.child hkeyword).isPlaced.start_boundary⟩,
      (hplaced.child himported).isPlaced.start_boundary⟩
  · show clause.start < keyword.start
    omega
  · show imported.start ≤ clause.stop
    omega

/-- The names of a list stand behind its brace. -/
theorem start_lt_specifier (h : list.ArePlaced source) (hshaped : list.AreShaped) (hkind : list.kind = "named_imports")
    (hspecifier : specifier ∈ specifiers list) : list.start < specifier.start := by
  obtain ⟨hmem, hnamed, -⟩ := mem_specifiers_iff.mp hspecifier
  exact h.behind_token ((hshaped list (self_mem_nodes _)).nameList hkind).1 (mem_nodes_of_mem_children hmem)
    (ne_of_mem_children hmem) (isToken_eq_false_of_isNamed hnamed)

/-- A list of names is changed within its braces. -/
theorem changesAt_readList (h : clause.ArePlaced source) (hshaped : clause.AreShaped) (hlist : list ∈ clause.children)
    (hkind : list.kind = "named_imports") : (readList source list).insertion.At (IsPlaceIn source clause) ∧
      ∀ s ∈ (readList source list).typeOnlyNamed, IsPlaceIn source clause s.modifier := by
  have hplaced := h.child hlist
  have hinside := h.isPlaced.inside list hlist
  have hbelow : ∀ specifier ∈ specifiers list, specifier ∈ clause.nodes ∧ specifier.kind = "import_specifier" ∧
      clause.start < specifier.start := by
    intro specifier hspecifier
    obtain ⟨hmem, -, hkind'⟩ := mem_specifiers_iff.mp hspecifier
    have hstart := start_lt_specifier hplaced (hshaped.child hlist) hkind hspecifier
    exact ⟨mem_nodes_trans (mem_nodes_of_mem_children hmem) (mem_nodes_of_mem_children hlist), hkind',
      Nat.lt_of_le_of_lt hinside.1 hstart⟩
  constructor
  · unfold readList
    cases hlast : (specifiers list).getLast? with
    | some last =>
      obtain ⟨hmem, -, hstart⟩ := hbelow last (List.mem_of_getLast? hlast)
      exact isPlaceIn_stop h hmem (by rintro rfl; omega)
    | none =>
      -- behind the opening brace
      have hopening := hplaced.holds_opening ((hshaped.child hlist list (self_mem_nodes _)).nameList hkind).1
      have hroom := hplaced.brackets_le ((hshaped.child hlist list (self_mem_nodes _)).nameList hkind) (by decide)
      have hlength : byteLength "\x7b".toList = 1 := rfl
      have hlength' : byteLength "\x7d".toList = 1 := rfl
      obtain ⟨before, after, hsource, -, hstop⟩ := hopening
      have hboundary : isBoundary source (list.start + 1) = true := by
        have hstop : list.start + 1 = _ := hstop
        rw [hstop, hsource]
        exact isBoundary_byteLength_append _ _
      refine ⟨?_, ?_, ?_⟩
      · simp [TextRange.isValidFor, TextRange.empty, hboundary]
      · show clause.start < list.start + 1
        omega
      · show list.start + 1 ≤ clause.stop
        omega
  · intro s hs
    obtain ⟨specifier, hspecifier, hs⟩ := List.mem_filterMap.mp hs
    obtain ⟨hmem, hkind', hstart⟩ := hbelow specifier hspecifier
    obtain ⟨-, keyword, imported, -, -, hmodifier⟩ := typeSpecifier?_eq_some hs
    exact isPlaceIn_modifier h hshaped hmem hkind' hstart hmodifier

/-! ## Clauses and statements -/

/-- A clause has a list of names, whose names are those of the clause, or no names. -/
theorem readClause_eq (source : List Char) (clause : SyntaxNode) :
    (∃ list ∈ clause.children, list.kind = "named_imports" ∧ readClause source clause = readList source list) ∨
      (readClause source clause).named = [] ∧ (readClause source clause).typeOnlyNamed = [] ∧
        ((∃ name ∈ clause.children, name.kind = "identifier" ∧
            (readClause source clause).insertion = .afterDefaultBinding name.stop) ∨
          ∃ reason, (readClause source clause).insertion = .unsupported reason) := by
  unfold readClause
  split
  · rename_i list hlist
    have hmem := List.mem_of_find?_eq_some hlist
    exact Or.inl ⟨list, (mem_namedChildren_iff.mp hmem).1, by simpa using List.find?_some hlist, rfl⟩
  · refine Or.inr ?_
    split
    · exact ⟨rfl, rfl, Or.inr ⟨_, rfl⟩⟩
    · split
      · rename_i name hname
        have hmem := List.mem_of_find?_eq_some hname
        exact ⟨rfl, rfl, Or.inl ⟨name, (mem_namedChildren_iff.mp hmem).1, by simpa using List.find?_some hname, rfl⟩⟩
      · exact ⟨rfl, rfl, Or.inr ⟨_, rfl⟩⟩

theorem changesAt_readClause (h : clause.ArePlaced source) (hshaped : clause.AreShaped) :
    (readClause source clause).insertion.At (IsPlaceIn source clause) ∧
      ∀ s ∈ (readClause source clause).typeOnlyNamed, IsPlaceIn source clause s.modifier := by
  rcases readClause_eq source clause with ⟨list, hlist, hkind, heq⟩ | ⟨-, htypes, hinsertion⟩
  · rw [heq]
    exact changesAt_readList h hshaped hlist hkind
  · rw [htypes]
    refine ⟨?_, by simp⟩
    rcases hinsertion with ⟨name, hname, -, hinsertion⟩ | ⟨reason, hinsertion⟩
    · rw [hinsertion]
      exact isPlaceIn_stop h (mem_nodes_of_mem_children hname) (ne_of_mem_children hname)
    · rw [hinsertion]
      exact trivial

/-- A child of a statement that is its clause. -/
def IsClauseOf (statement clause : SyntaxNode) : Prop := clause ∈ statement.children ∧ clause.kind = "import_clause"

theorem isClauseOf_of_clauseOf? (h : clauseOf? statement = some clause) : IsClauseOf statement clause :=
  ⟨List.mem_of_find?_eq_some h, by simpa using List.find?_some h⟩

/-- An import statement is changed within its clause. -/
theorem changesAt_readImport (h : statement.ArePlaced source) (hshaped : statement.AreShaped) :
    (readImport source statement module).ChangesAt fun range =>
      ∃ clause, IsClauseOf statement clause ∧ IsPlaceIn source clause range := by
  cases hclause : clauseOf? statement with
  | none =>
    -- a statement without a clause cannot be changed anywhere
    have hsideEffect : readImport source statement module = { readImport source statement module with
        typeOnlyNamed := [], insertion := ImportClause.sideEffect.insertion } := by
      simp [readImport, hclause, ImportClause.sideEffect, ImportClause.unsupported]
    rw [hsideEffect]
    exact ⟨trivial, by simp⟩
  | some clause =>
    have hof := isClauseOf_of_clauseOf? hclause
    obtain ⟨hinsertion, hmodifiers⟩ := changesAt_readClause (h.child hof.1) (hshaped.child hof.1)
    have himp : ∀ range, IsPlaceIn source clause range →
        ∃ clause, IsClauseOf statement clause ∧ IsPlaceIn source clause range := fun range hrange =>
      ⟨clause, hof, hrange⟩
    constructor
    · have heq : (readImport source statement module).insertion = (readClause source clause).insertion := by
        simp [readImport, hclause]
      rw [heq]
      exact hinsertion.imp himp
    · intro s hs
      have heq : (readImport source statement module).typeOnlyNamed = (readClause source clause).typeOnlyNamed := by
        simp [readImport, hclause]
      rw [heq] at hs
      exact himp _ (hmodifiers s hs)

/-- The module of a statement stands behind its clause. -/
theorem clause_stop_lt (h : statement.ArePlaced source) (hshaped : statement.AreShaped)
    (hmodule : IsImportOf statement module) (hclause : IsClauseOf statement clause) : clause.stop < statement.stop := by
  obtain ⟨hmem, hfield⟩ := mem_children_of_childIn? hmodule.inSource
  have hboth := h.isPlaced.ordered.and ((hshaped statement (self_mem_nodes _)).importStatement hmodule.kind)
  have hnonempty := h.isPlaced.nonempty module hmem
  have hstop := (h.isPlaced.inside module hmem).2
  rcases eq_or_rel_of_pairwise hboth hclause.1 hmem with rfl | ⟨hle, -⟩ | ⟨-, hshape⟩
  · have hstring := hmodule.kind_module
    rw [hclause.2] at hstring
    exact absurd hstring (by decide)
  · omega
  · exact absurd hclause.2 (hshape hfield)

end

end FieldInjection.TypeScript
