import FieldInjection.Syntax.Tree

/-!
# The nodes of a tree

A node stands below another one if it is among its nodes. This is an order (`mem_nodes_trans`, `eq_of_mem_nodes`),
and one goes down in it child by child (`mem_nodes_iff`).
-/

namespace FieldInjection.SyntaxNode

variable {n m k : SyntaxNode} {ns : List SyntaxNode}

theorem nodes_eq (n : SyntaxNode) : n.nodes = n :: nodesOfList n.children := by
  cases n with
  | node l cs => rfl

@[simp] theorem nodesOfList_nil : nodesOfList [] = [] := rfl

@[simp] theorem nodesOfList_cons (n : SyntaxNode) (ns : List SyntaxNode) :
    nodesOfList (n :: ns) = n.nodes ++ nodesOfList ns := rfl

theorem mem_nodesOfList_iff : m ∈ nodesOfList ns ↔ ∃ n ∈ ns, m ∈ n.nodes := by
  induction ns with
  | nil => simp
  | cons n ns ih => simp [ih]

/-- A node is one of its own nodes, and the others stand below its children. -/
theorem mem_nodes_iff : m ∈ n.nodes ↔ m = n ∨ ∃ c ∈ n.children, m ∈ c.nodes := by
  rw [nodes_eq, List.mem_cons, mem_nodesOfList_iff]

@[simp] theorem self_mem_nodes (n : SyntaxNode) : n ∈ n.nodes := mem_nodes_iff.mpr (Or.inl rfl)

theorem mem_nodes_of_mem_children (h : m ∈ n.children) : m ∈ n.nodes :=
  mem_nodes_iff.mpr (Or.inr ⟨m, h, self_mem_nodes m⟩)

theorem mem_children_of_childIn? {field : String} (h : n.childIn? field = some m) :
    m ∈ n.children ∧ m.field? = some field :=
  ⟨List.mem_of_find?_eq_some h, by simpa using List.find?_some h⟩

theorem isToken_iff {spelling : String} : n.isToken spelling = true ↔ n.isNamed = false ∧ n.kind = spelling := by
  simp [isToken]

theorem mem_namedChildren_iff : m ∈ n.namedChildren ↔ m ∈ n.children ∧ m.isNamed = true := List.mem_filter

mutual

/-- The number of nodes below a node, itself included. -/
def size : SyntaxNode → Nat
  | node _ cs => sizeOfList cs + 1

/-- The number of nodes of some nodes. -/
def sizeOfList : List SyntaxNode → Nat
  | [] => 0
  | n :: ns => n.size + sizeOfList ns

end

theorem size_eq (n : SyntaxNode) : n.size = sizeOfList n.children + 1 := by
  cases n with
  | node l cs => rfl

theorem size_le_of_mem (h : m ∈ ns) : m.size ≤ sizeOfList ns := by
  induction ns with
  | nil => cases h
  | cons n ns ih =>
    simp only [sizeOfList]
    rcases List.mem_cons.mp h with rfl | h
    · omega
    · have := ih h
      omega

theorem size_lt_of_mem_children (h : m ∈ n.children) : m.size < n.size := by
  have := size_le_of_mem h
  rw [size_eq n]
  omega

/-- What holds of a node if it holds of all its children holds of all nodes. -/
theorem induct {P : SyntaxNode → Prop} (h : ∀ n, (∀ c ∈ n.children, P c) → P n) (n : SyntaxNode) : P n := by
  induction hn : n.size using Nat.strongRecOn generalizing n with
  | ind s ih => exact h n fun c hc => ih _ (hn ▸ size_lt_of_mem_children hc) c rfl

theorem size_le_of_mem_nodes (h : m ∈ n.nodes) : m.size ≤ n.size := by
  induction n using induct with
  | h n ih =>
    rcases mem_nodes_iff.mp h with rfl | ⟨c, hc, hm⟩
    · exact Nat.le_refl _
    · exact Nat.le_of_lt (Nat.lt_of_le_of_lt (ih c hc hm) (size_lt_of_mem_children hc))

theorem mem_nodes_trans (hm : m ∈ n.nodes) (hn : n ∈ k.nodes) : m ∈ k.nodes := by
  induction k using induct with
  | h k ih =>
    rcases mem_nodes_iff.mp hn with rfl | ⟨c, hc, hn⟩
    · exact hm
    · exact mem_nodes_iff.mpr (Or.inr ⟨c, hc, ih c hc hn⟩)

/-- Two nodes that stand below each other are one. -/
theorem eq_of_mem_nodes (hm : m ∈ n.nodes) (hn : n ∈ m.nodes) : m = n := by
  rcases mem_nodes_iff.mp hm with rfl | ⟨c, hc, hm⟩
  · rfl
  · have hsize := size_lt_of_mem_children hc
    have := size_le_of_mem_nodes hm
    have := size_le_of_mem_nodes hn
    omega

/-- No node stands below one of its own children. -/
theorem not_mem_nodes_of_mem_children (h : m ∈ n.children) : n ∉ m.nodes := by
  intro hn
  have := size_le_of_mem_nodes hn
  have := size_lt_of_mem_children h
  omega

theorem ne_of_mem_children (h : m ∈ n.children) : m ≠ n := by
  rintro rfl
  exact not_mem_nodes_of_mem_children h (self_mem_nodes m)

end FieldInjection.SyntaxNode
