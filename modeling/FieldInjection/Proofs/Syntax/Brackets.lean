import FieldInjection.Proofs.Syntax.Placement

/-!
# Nodes between brackets

A node may begin and end with tokens of its own. What else stands below it then stands between them
(`ArePlaced.behind_token`, `ArePlaced.before_token`), and the text has the tokens right there
(`ArePlaced.holds_opening`, `ArePlaced.holds_closing`).
-/

namespace FieldInjection

namespace SyntaxNode

/-- The node begins with a token. -/
def beginsWith (spelling : String) (n : SyntaxNode) : Bool :=
  n.children.head?.any fun c => c.isToken spelling && c.start == n.start

/-- The node ends with a token. -/
def endsWith (spelling : String) (n : SyntaxNode) : Bool :=
  n.children.getLast?.any fun c => c.isToken spelling && c.stop == n.stop

/-- The node stands between two brackets of its own. -/
def IsEnclosed (opening closing : String) (n : SyntaxNode) : Prop :=
  n.beginsWith opening = true ∧ n.endsWith closing = true

instance (opening closing : String) (n : SyntaxNode) : Decidable (n.IsEnclosed opening closing) :=
  inferInstanceAs (Decidable (_ ∧ _))

section
variable {source : List Char} {n m c : SyntaxNode} {opening closing : String}

theorem isToken_eq_false (h : n.kind ≠ opening) : n.isToken opening = false := by
  simp [isToken, h]

theorem isToken_eq_false_of_isNamed (h : n.isNamed = true) : n.isToken opening = false := by
  simp [isToken, h]

theorem exists_of_beginsWith (h : n.beginsWith opening = true) :
    ∃ first rest, n.children = first :: rest ∧ first.isToken opening = true ∧ first.start = n.start := by
  obtain ⟨first, hfirst, h⟩ := (Option.any_eq_true _ _).mp h
  obtain ⟨rest, hchildren⟩ := List.head?_eq_some_iff.mp hfirst
  rw [Bool.and_eq_true, beq_iff_eq] at h
  exact ⟨first, rest, hchildren, h⟩

theorem exists_of_endsWith (h : n.endsWith closing = true) :
    ∃ front last, n.children = front ++ [last] ∧ last.isToken closing = true ∧ last.stop = n.stop := by
  obtain ⟨last, hlast, h⟩ := (Option.any_eq_true _ _).mp h
  obtain ⟨front, hchildren⟩ := List.getLast?_eq_some_iff.mp hlast
  rw [Bool.and_eq_true, beq_iff_eq] at h
  exact ⟨front, last, hchildren, h⟩

/-- What stands below a node that begins with a token stands behind it, but for the token. -/
theorem ArePlaced.behind_token (h : n.ArePlaced source) (hbegins : n.beginsWith opening = true) (hm : m ∈ n.nodes)
    (hne : m ≠ n) (htoken : m.isToken opening = false) : n.start + byteLength opening.toList ≤ m.start := by
  obtain ⟨first, rest, hchildren, hfirst, hstart⟩ := exists_of_beginsWith hbegins
  have hmem : first ∈ n.children := by simp [hchildren]
  have hplaced := (h.child hmem).isPlaced
  have hstop := hplaced.stop_token hfirst
  rcases mem_nodes_iff.mp hm with rfl | ⟨c, hc, hm⟩
  · exact absurd rfl hne
  have hbelow := ((h.child hc).within hm).1
  have hordered := h.isPlaced.ordered
  rw [hchildren] at hc hordered
  rcases List.mem_cons.mp hc with rfl | hc
  · rw [hplaced.nodes_token hfirst hm, hfirst] at htoken
    cases htoken
  · have := (List.pairwise_cons.mp hordered).1 c hc
    omega

/-- What stands below a node that ends with a token stands before it, but for the token. -/
theorem ArePlaced.before_token (h : n.ArePlaced source) (hends : n.endsWith closing = true) (hm : m ∈ n.nodes)
    (hne : m ≠ n) (htoken : m.isToken closing = false) : m.stop + byteLength closing.toList ≤ n.stop := by
  obtain ⟨front, last, hchildren, hlast, hstop⟩ := exists_of_endsWith hends
  have hmem : last ∈ n.children := by simp [hchildren]
  have hplaced := (h.child hmem).isPlaced
  have hlength := hplaced.stop_token hlast
  rcases mem_nodes_iff.mp hm with rfl | ⟨c, hc, hm⟩
  · exact absurd rfl hne
  have hbelow := ((h.child hc).within hm).2
  have hordered := h.isPlaced.ordered
  rw [hchildren] at hc hordered
  rcases List.mem_append.mp hc with hc | hc
  · have := (List.pairwise_append.mp hordered).2.2 c hc last List.mem_cons_self
    omega
  · obtain rfl := List.mem_singleton.mp hc
    rw [hplaced.nodes_token hlast hm, hlast] at htoken
    cases htoken

/-- A node begins with the token that it says. -/
theorem ArePlaced.holds_opening (h : n.ArePlaced source) (hbegins : n.beginsWith opening = true) :
    (⟨n.start, n.start + byteLength opening.toList⟩ : TextRange).Holds source opening.toList := by
  obtain ⟨first, rest, hchildren, hfirst, hstart⟩ := exists_of_beginsWith hbegins
  have hplaced := (h.child (by simp [hchildren] : first ∈ n.children)).isPlaced
  rw [← hstart, ← hplaced.stop_token hfirst]
  exact hplaced.holds_token hfirst

theorem ArePlaced.holds_closing (h : n.ArePlaced source) (hends : n.endsWith closing = true) :
    ∃ start, start + byteLength closing.toList = n.stop ∧ (⟨start, n.stop⟩ : TextRange).Holds source closing.toList := by
  obtain ⟨front, last, hchildren, hlast, hstop⟩ := exists_of_endsWith hends
  have hplaced := (h.child (by simp [hchildren] : last ∈ n.children)).isPlaced
  refine ⟨last.start, ?_, ?_⟩
  · rw [← hstop, hplaced.stop_token hlast]
  · rw [← hstop]
    exact hplaced.holds_token hlast

/-- Between two different brackets there is room for both. -/
theorem ArePlaced.brackets_le (h : n.ArePlaced source) (henclosed : n.IsEnclosed opening closing)
    (hne : opening ≠ closing) : n.start + byteLength opening.toList + byteLength closing.toList ≤ n.stop := by
  obtain ⟨first, rest, hchildren, hfirst, hstart⟩ := exists_of_beginsWith henclosed.1
  have hmem : first ∈ n.children := by simp [hchildren]
  have hlength := (h.child hmem).isPlaced.stop_token hfirst
  have htoken : first.isToken closing = false := by
    refine isToken_eq_false ?_
    rw [(isToken_iff.mp hfirst).2]
    exact hne
  have := h.before_token henclosed.2 (mem_nodes_of_mem_children hmem)
    (ne_of_mem_children hmem) htoken
  omega

end

end SyntaxNode

end FieldInjection
