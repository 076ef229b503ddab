import FieldInjection.Proofs.Syntax.Brackets
import FieldInjection.TypeScript.SourceFile

/-!
# What is counted on of a parser

The trees that a parser gives of texts without errors are taken for granted in two respects: nodes stand where they
say (`Parser.PlacesNodes`), and those that are looked into have the shape that the grammar of the language gives them
(`Parser.FollowsGrammar`). Nothing is assumed of trees of texts with errors.

A parser that knows the trees of a few texts only (`Parser.ofTable`) shows what this comes to for them.
-/

namespace FieldInjection

namespace SyntaxNode

def isClass (n : SyntaxNode) : Bool := n.kind == "class_declaration" || n.kind == "abstract_class_declaration"

/-- The parts of a node are those that the grammar gives to its kind. -/
structure HasShape (n : SyntaxNode) : Prop where
  /-- A class declaration begins with its decorators, or with a keyword. -/
  classDeclaration : n.isClass = true →
    n.children.head?.any (fun c => c.isToken "class" || c.isToken "abstract" || c.kind == "decorator") = true
  decorator : n.kind = "decorator" → n.beginsWith "@" = true
  classBody : n.kind = "class_body" → n.IsEnclosed "\x7b" "\x7d"
  /-- A method that is no mere signature has parameters and a body. -/
  methodDefinition : n.kind = "method_definition" →
    (n.childIn? "parameters").any (fun c => c.kind == "formal_parameters") = true ∧ (n.childIn? "body").isSome = true
  parameterList : n.kind = "formal_parameters" → n.IsEnclosed "(" ")"
  /-- The module of an import statement stands behind its clause. -/
  importStatement : n.kind = "import_statement" →
    n.children.Pairwise fun c d => c.field? = some "source" → d.kind ≠ "import_clause"
  nameList : n.kind = "named_imports" → n.IsEnclosed "\x7b" "\x7d"
  /-- No class stands between the names of an import statement. -/
  importClause : n.kind = "import_clause" → ∀ m ∈ n.nodes, m.kind ≠ "class_body"
  importSpecifier : n.kind = "import_specifier" → ∀ c ∈ n.childIn? "name", c.isNamed = true

instance (n : SyntaxNode) : Decidable n.HasShape :=
  decidable_of_iff
    ((n.isClass = true →
        n.children.head?.any (fun c => c.isToken "class" || c.isToken "abstract" || c.kind == "decorator") = true) ∧
      (n.kind = "decorator" → n.beginsWith "@" = true) ∧
      (n.kind = "class_body" → n.IsEnclosed "\x7b" "\x7d") ∧
      (n.kind = "method_definition" →
        (n.childIn? "parameters").any (fun c => c.kind == "formal_parameters") = true ∧
          (n.childIn? "body").isSome = true) ∧
      (n.kind = "formal_parameters" → n.IsEnclosed "(" ")") ∧
      (n.kind = "import_statement" →
        n.children.Pairwise fun c d => c.field? = some "source" → d.kind ≠ "import_clause") ∧
      (n.kind = "named_imports" → n.IsEnclosed "\x7b" "\x7d") ∧
      (n.kind = "import_clause" → ∀ m ∈ n.nodes, m.kind ≠ "class_body") ∧
      (n.kind = "import_specifier" → ∀ c ∈ n.childIn? "name", c.isNamed = true))
    ⟨fun ⟨h₁, h₂, h₃, h₄, h₅, h₆, h₇, h₈, h₉⟩ => ⟨h₁, h₂, h₃, h₄, h₅, h₆, h₇, h₈, h₉⟩,
      fun ⟨h₁, h₂, h₃, h₄, h₅, h₆, h₇, h₈, h₉⟩ => ⟨h₁, h₂, h₃, h₄, h₅, h₆, h₇, h₈, h₉⟩⟩

/-- A method has a list of parameters. -/
theorem HasShape.exists_parameters {n : SyntaxNode} (h : n.HasShape) (hkind : n.kind = "method_definition") :
    ∃ list, n.childIn? "parameters" = some list ∧ list.kind = "formal_parameters" := by
  obtain ⟨list, hlist, hformal⟩ := (Option.any_eq_true _ _).mp (h.methodDefinition hkind).1
  exact ⟨list, hlist, by simpa using hformal⟩

theorem HasShape.kind_parameters {n list : SyntaxNode} (h : n.HasShape) (hkind : n.kind = "method_definition")
    (hlist : n.childIn? "parameters" = some list) : list.kind = "formal_parameters" := by
  obtain ⟨list', hlist', hformal⟩ := h.exists_parameters hkind
  rw [hlist] at hlist'
  rwa [Option.some.inj hlist']

/-- All nodes of a tree have the shapes that the grammar gives them. -/
def AreShaped (root : SyntaxNode) : Prop := ∀ n ∈ root.nodes, n.HasShape

instance (root : SyntaxNode) : Decidable root.AreShaped := inferInstanceAs (Decidable (∀ n ∈ root.nodes, n.HasShape))

theorem AreShaped.of_mem {root n : SyntaxNode} (h : root.AreShaped) (hn : n ∈ root.nodes) : n.AreShaped :=
  fun m hm => h m (mem_nodes_trans hm hn)

theorem AreShaped.child {n c : SyntaxNode} (h : n.AreShaped) (hc : c ∈ n.children) : c.AreShaped :=
  h.of_mem (mem_nodes_of_mem_children hc)

end SyntaxNode

namespace SyntaxNode

/-- A token from where it starts. -/
def token (spelling : String) (start : Nat) : SyntaxNode :=
  .node ⟨spelling, false, none, ⟨start, start + byteLength spelling.toList⟩⟩ []

/-- A named node in its field. -/
def rule (kind : String) (field? : Option String) (start stop : Nat) (children : List SyntaxNode) : SyntaxNode :=
  .node ⟨kind, true, field?, ⟨start, stop⟩⟩ children

end SyntaxNode

namespace Parser

/-- Nodes of texts without errors stand where they say. -/
def PlacesNodes (parse : Parser) : Prop :=
  ∀ grammar text, (parse grammar text).hasError = false → (parse grammar text).root.ArePlaced text.toList

/-- Nodes of texts without errors have the shapes of the grammar. -/
def FollowsGrammar (parse : Parser) : Prop :=
  ∀ grammar text, (parse grammar text).hasError = false → (parse grammar text).root.AreShaped

/-- A parser for the texts of a table, which finds errors in all others. -/
def ofTable (table : List (String × SyntaxNode)) : Parser := fun _ text =>
  match table.lookup text with
  | some root => ⟨root, false⟩
  | none => ⟨.node ⟨"ERROR", true, none, ⟨0, text.utf8ByteSize⟩⟩ [], true⟩

section
variable {table : List (String × SyntaxNode)}

theorem ofTable_cons_self (grammar : Grammar) (text : String) (root : SyntaxNode) :
    ofTable ((text, root) :: table) grammar text = ⟨root, false⟩ := by
  simp [ofTable]

theorem ofTable_cons_of_ne {text other : String} (h : text ≠ other) (grammar : Grammar) (root : SyntaxNode) :
    ofTable ((other, root) :: table) grammar text = ofTable table grammar text := by
  simp only [ofTable, List.lookup_cons, beq_eq_false_iff_ne.mpr h]

/-- What holds of the table holds of all trees without errors. -/
theorem of_ofTable {P : String → SyntaxNode → Prop} (h : ∀ e ∈ table, P e.1 e.2) {grammar : Grammar} {text : String}
    (herrors : (ofTable table grammar text).hasError = false) : P text (ofTable table grammar text).root := by
  unfold ofTable at herrors ⊢
  split
  · rename_i root hroot
    obtain ⟨front, back, rfl, -⟩ := List.lookup_eq_some_iff.mp hroot
    exact h (text, root) (by simp)
  · rename_i hroot
    rw [hroot] at herrors
    cases herrors

theorem ofTable_placesNodes (h : ∀ e ∈ table, e.2.ArePlaced e.1.toList) : (ofTable table).PlacesNodes :=
  fun _ _ herrors => of_ofTable (P := fun text root => root.ArePlaced text.toList) h herrors

theorem ofTable_followsGrammar (h : ∀ e ∈ table, e.2.AreShaped) : (ofTable table).FollowsGrammar :=
  fun _ _ herrors => of_ofTable (P := fun _ root => root.AreShaped) h herrors

end

end Parser

end FieldInjection
