import FieldInjection.Proofs.Edit.Weave
import FieldInjection.Proofs.Lists
import FieldInjection.Proofs.Syntax.Nodes

/-!
# Where nodes stand

The nodes of a tree lie inside one another like brackets: each child within its parent, the children of a node one
behind the other. So of two nodes of a tree one stands below the other or they are apart (`nested_or_apart`), a node
that overlaps a child stands below it (`mem_nodes_of_overlap`), and nodes are listed by where they start
(`ArePlaced.pairwise_nodes`).
-/

namespace FieldInjection

/-- The text has the given part in the range. -/
def TextRange.Holds (r : TextRange) (text part : List Char) : Prop :=
  ∃ before after, text = before ++ part ++ after ∧ r.start = byteLength before ∧ r.stop = byteLength (before ++ part)

/-- The range stands between two characters. -/
def TextRange.IsBetween (r : TextRange) (text : List Char) (left right : Char) : Prop :=
  ∃ before between after, text = before ++ left :: between ++ right :: after ∧
    r.start = byteLength (before ++ [left]) ∧ r.stop = byteLength (before ++ left :: between)

/-- The range is inside another one and touches neither of its ends. -/
def TextRange.IsStrictlyInside (r s : TextRange) : Prop := s.start < r.start ∧ r.stop < s.stop

/-- What stands in a range begins with what stands in a range that begins there too and ends no later. -/
theorem TextRange.Holds.isPrefix {text part part' : List Char} {start stop stop' : Nat}
    (h : (⟨start, stop⟩ : TextRange).Holds text part) (h' : (⟨start, stop'⟩ : TextRange).Holds text part')
    (hle : stop ≤ stop') : part <+: part' := by
  obtain ⟨before, after, htext, hstart, rfl⟩ := h
  obtain ⟨before', after', htext', hstart', rfl⟩ := h'
  replace hstart : start = byteLength before := hstart
  replace hstart' : start = byteLength before' := hstart'
  -- both are cut off at the same offset
  have hdrop : part ++ after = part' ++ after' := by
    rw [List.append_assoc] at htext htext'
    rw [← dropBytes_byteLength_append before (part ++ after), ← dropBytes_byteLength_append before' (part' ++ after'),
      ← htext, ← htext', ← hstart, ← hstart']
  have hlength : byteLength part ≤ byteLength part' := by
    simp only [byteLength_append, ← hstart, ← hstart'] at hle
    omega
  obtain ⟨rest, rfl, -⟩ := exists_between hdrop hlength
  exact List.prefix_append _ _

/-- What stands in two ranges one behind the other. -/
theorem TextRange.Holds.exists_between {r s : TextRange} {text part part' : List Char} (h : r.Holds text part)
    (h' : s.Holds text part') (hle : r.stop ≤ s.start) : ∃ before between after,
      text = before ++ part ++ between ++ part' ++ after ∧ r.start = byteLength before ∧
        r.stop = byteLength (before ++ part) ∧ s.start = byteLength (before ++ part ++ between) := by
  obtain ⟨before, after, htext, hstart, hstop⟩ := h
  obtain ⟨before', after', htext', hstart', -⟩ := h'
  rw [hstop, hstart'] at hle
  obtain ⟨between, rfl, -⟩ := FieldInjection.exists_between
    (htext.symm.trans (htext'.trans (List.append_assoc _ _ _))) hle
  exact ⟨before, between, after', htext', hstart, hstop, hstart'⟩

namespace SyntaxNode

/-- A node takes up a range of the text with its children in it, one behind the other, and none of them empty. A token
that the grammar spells out stands there as it is spelled. -/
structure IsPlaced (source : List Char) (n : SyntaxNode) : Prop where
  start_boundary : isBoundary source n.start = true
  stop_boundary : isBoundary source n.stop = true
  start_le_stop : n.start ≤ n.stop
  nonempty : ∀ c ∈ n.children, c.start < c.stop
  inside : ∀ c ∈ n.children, n.start ≤ c.start ∧ c.stop ≤ n.stop
  ordered : n.children.Pairwise fun c d => c.stop ≤ d.start
  spelled : n.isNamed = false → n.children = [] ∧ n.text source = n.kind

/-- All nodes of a tree take up ranges of the text. -/
def ArePlaced (source : List Char) (root : SyntaxNode) : Prop := ∀ n ∈ root.nodes, n.IsPlaced source

instance (source : List Char) (n : SyntaxNode) : Decidable (n.IsPlaced source) :=
  decidable_of_iff
    ((isBoundary source n.start = true ∧ isBoundary source n.stop = true ∧ n.start ≤ n.stop) ∧
      (∀ c ∈ n.children, c.start < c.stop) ∧
      (∀ c ∈ n.children, n.start ≤ c.start ∧ c.stop ≤ n.stop) ∧
      (n.children.Pairwise fun c d => c.stop ≤ d.start) ∧
      (n.isNamed = false → n.children.isEmpty = true ∧ n.text source = n.kind))
    ⟨fun ⟨⟨h₁, h₂, h₃⟩, h₄, h₅, h₆, h₇⟩ => ⟨h₁, h₂, h₃, h₄, h₅, h₆, fun h => ⟨List.isEmpty_iff.mp (h₇ h).1, (h₇ h).2⟩⟩,
      fun ⟨h₁, h₂, h₃, h₄, h₅, h₆, h₇⟩ => ⟨⟨h₁, h₂, h₃⟩, h₄, h₅, h₆, fun h => ⟨List.isEmpty_iff.mpr (h₇ h).1, (h₇ h).2⟩⟩⟩

instance (source : List Char) (root : SyntaxNode) : Decidable (root.ArePlaced source) :=
  inferInstanceAs (Decidable (∀ n ∈ root.nodes, n.IsPlaced source))

section
variable {source : List Char} {root n m a b : SyntaxNode} {spelling : String}

theorem ArePlaced.of_mem (h : root.ArePlaced source) (hn : n ∈ root.nodes) : n.ArePlaced source :=
  fun m hm => h m (mem_nodes_trans hm hn)

theorem ArePlaced.isPlaced (h : n.ArePlaced source) : n.IsPlaced source := h n (self_mem_nodes n)

theorem ArePlaced.child (h : n.ArePlaced source) (hm : m ∈ n.children) : m.ArePlaced source :=
  h.of_mem (mem_nodes_of_mem_children hm)

/-- What stands below a node lies within it. -/
theorem ArePlaced.within (h : n.ArePlaced source) (hm : m ∈ n.nodes) : n.start ≤ m.start ∧ m.stop ≤ n.stop := by
  induction n using induct with
  | h n ih =>
    rcases mem_nodes_iff.mp hm with rfl | ⟨c, hc, hm⟩
    · exact ⟨Nat.le_refl _, Nat.le_refl _⟩
    · obtain ⟨hstart, hstop⟩ := ih c hc (h.child hc) hm
      obtain ⟨hstart', hstop'⟩ := h.isPlaced.inside c hc
      exact ⟨Nat.le_trans hstart' hstart, Nat.le_trans hstop hstop'⟩

/-- A node below another one is not empty. -/
theorem ArePlaced.start_lt_stop (h : root.ArePlaced source) (hn : n ∈ root.nodes) (hne : n ≠ root) : n.start < n.stop := by
  induction root using induct with
  | h root ih =>
    rcases mem_nodes_iff.mp hn with rfl | ⟨c, hc, hn⟩
    · exact absurd rfl hne
    · by_cases heq : n = c
      · exact heq ▸ h.isPlaced.nonempty c hc
      · exact ih c hc (h.child hc) hn heq

/-- Two nodes that overlap in an offset between them. -/
def Overlap (n m : SyntaxNode) : Prop := n.start < m.stop ∧ m.start < n.stop

/-- What overlaps a part of a node overlaps the node. -/
theorem Overlap.of_within (h : m.Overlap a) (hstart : b.start ≤ a.start) (hstop : a.stop ≤ b.stop) : m.Overlap b :=
  ⟨Nat.lt_of_lt_of_le h.1 hstop, Nat.lt_of_le_of_lt hstart h.2⟩

/-- Children that overlap are one. -/
theorem ArePlaced.eq_of_overlap (h : n.ArePlaced source) (ha : a ∈ n.children) (hb : b ∈ n.children)
    (hoverlap : a.Overlap b) : a = b := by
  rcases eq_or_rel_of_pairwise h.isPlaced.ordered ha hb with heq | hlt | hlt
  · exact heq
  · exact absurd hoverlap.2 (Nat.not_lt.mpr hlt)
  · exact absurd hoverlap.1 (Nat.not_lt.mpr hlt)

/-- Children below which one node stands are one. -/
theorem ArePlaced.eq_of_mem_both (h : n.ArePlaced source) (ha : a ∈ n.children) (hb : b ∈ n.children) (hma : m ∈ a.nodes)
    (hmb : m ∈ b.nodes) : a = b := by
  have hne : m ≠ n := by
    rintro rfl
    exact not_mem_nodes_of_mem_children ha hma
  have hlt := h.start_lt_stop (mem_nodes_trans hma (mem_nodes_of_mem_children ha)) hne
  have hwithin := (h.child ha).within hma
  have hwithin' := (h.child hb).within hmb
  exact h.eq_of_overlap ha hb ⟨by omega, by omega⟩

/-- What stands below a node and overlaps one of its children stands below this child. -/
theorem ArePlaced.mem_nodes_of_overlap (h : n.ArePlaced source) (ha : a ∈ n.children) (hm : m ∈ n.nodes) (hne : m ≠ n)
    (hoverlap : m.Overlap a) : m ∈ a.nodes := by
  rcases mem_nodes_iff.mp hm with rfl | ⟨c, hc, hm⟩
  · exact absurd rfl hne
  · obtain ⟨hstart, hstop⟩ := (h.child hc).within hm
    have hca : c.Overlap a := ⟨Nat.lt_of_le_of_lt hstart hoverlap.1, Nat.lt_of_lt_of_le hoverlap.2 hstop⟩
    exact h.eq_of_overlap hc ha hca ▸ hm

/-- Of two nodes of a tree one stands below the other, or they are apart. -/
theorem ArePlaced.nested_or_apart (h : root.ArePlaced source) (hn : n ∈ root.nodes) (hm : m ∈ root.nodes) :
    n ∈ m.nodes ∨ m ∈ n.nodes ∨ n.stop ≤ m.start ∨ m.stop ≤ n.start := by
  induction root using induct with
  | h root ih =>
    rcases mem_nodes_iff.mp hn with rfl | ⟨c, hc, hnc⟩
    · exact Or.inr (Or.inl hm)
    rcases mem_nodes_iff.mp hm with rfl | ⟨d, hd, hmd⟩
    · exact Or.inl hn
    -- below one child this goes on, and below two they are apart
    obtain ⟨hstart, hstop⟩ := (h.child hc).within hnc
    obtain ⟨hstart', hstop'⟩ := (h.child hd).within hmd
    rcases eq_or_rel_of_pairwise h.isPlaced.ordered hc hd with rfl | hlt | hlt
    · exact ih c hc (h.child hc) hnc hmd
    · exact Or.inr (Or.inr (Or.inl (by omega)))
    · exact Or.inr (Or.inr (Or.inr (by omega)))

/-- The nodes of a tree are listed from the front to the back, each before what stands below it. -/
theorem ArePlaced.pairwise_nodes (h : root.ArePlaced source) :
    root.nodes.Pairwise fun n m => (m ∈ n.nodes ∧ m ≠ n) ∨ n.stop ≤ m.start := by
  induction root using induct with
  | h root ih =>
    rw [nodes_eq, List.pairwise_cons]
    constructor
    · intro m hm
      obtain ⟨c, hc, hbelow⟩ := mem_nodesOfList_iff.mp hm
      refine Or.inl ⟨mem_nodes_iff.mpr (Or.inr ⟨c, hc, hbelow⟩), ?_⟩
      rintro rfl
      exact not_mem_nodes_of_mem_children hc hbelow
    · have hordered := h.isPlaced.ordered
      have hchild : ∀ c ∈ root.children, c.ArePlaced source := fun c hc => h.child hc
      -- one child behind the other
      generalize root.children = cs at ih hordered hchild
      induction cs with
      | nil => exact List.Pairwise.nil
      | cons c cs ihcs =>
        rw [nodesOfList_cons, List.pairwise_append]
        obtain ⟨hc, hcs⟩ := List.forall_mem_cons.mp hchild
        obtain ⟨hbefore, hordered⟩ := List.pairwise_cons.mp hordered
        refine ⟨ih c List.mem_cons_self hc, ihcs (fun d hd => ih d (List.mem_cons_of_mem c hd)) hordered hcs, ?_⟩
        intro n hn m hm
        obtain ⟨d, hd, hm⟩ := mem_nodesOfList_iff.mp hm
        have hn := (hc.within hn).2
        have hm := ((hcs d hd).within hm).1
        exact Or.inr (Nat.le_trans hn (Nat.le_trans (hbefore d hd) hm))

/-- An offset inside a node below a child is none at which a child begins. -/
theorem ArePlaced.ne_start (h : n.ArePlaced source) (hm : m ∈ n.nodes) (hne : m ≠ n) {x : Nat} (hstart : m.start < x)
    (hstop : x < m.stop) (ha : a ∈ n.children) : x ≠ a.start := by
  rintro rfl
  have hlt := h.isPlaced.nonempty a ha
  have hbelow := h.mem_nodes_of_overlap ha hm hne ⟨by omega, hstop⟩
  have := ((h.child ha).within hbelow).1
  omega

/-! ## Tokens -/

/-- Between two boundaries stands the slice between them. -/
theorem holds_sliceBytes {start stop : Nat} (hstart : isBoundary source start = true)
    (hstop : isBoundary source stop = true) (hle : start ≤ stop) :
    (⟨start, stop⟩ : TextRange).Holds source (sliceBytes source start stop) := by
  obtain ⟨hsplit, hlength⟩ := dropBytes_eq_slice_append hstart hstop hle
  refine ⟨takeBytes source start, dropBytes source stop, ?_, (byteLength_takeBytes hstart).symm, ?_⟩
  · rw [List.append_assoc, ← hsplit, take_append_drop]
  · rw [byteLength_append, byteLength_takeBytes hstart, hlength]
    exact (Nat.add_sub_cancel' hle).symm

/-- A node has its text in its range. -/
theorem IsPlaced.holds (h : n.IsPlaced source) : n.range.Holds source (n.text source).toList := by
  rw [text, String.toList_ofList]
  exact holds_sliceBytes h.start_boundary h.stop_boundary h.start_le_stop

theorem IsPlaced.isValidFor (h : n.IsPlaced source) : n.range.isValidFor source = true := by
  simp only [TextRange.isValidFor, Bool.and_eq_true, decide_eq_true_eq]
  exact ⟨⟨h.start_le_stop, h.start_boundary⟩, h.stop_boundary⟩

/-- A token stands in the text as it is spelled. -/
theorem IsPlaced.holds_token (h : n.IsPlaced source) (htoken : n.isToken spelling = true) :
    n.range.Holds source spelling.toList := by
  obtain ⟨hnamed, hkind⟩ := isToken_iff.mp htoken
  have hholds := h.holds
  rwa [(h.spelled hnamed).2, hkind] at hholds

/-- A token has nothing below it. -/
theorem IsPlaced.nodes_token (h : n.IsPlaced source) (htoken : n.isToken spelling = true) (hm : m ∈ n.nodes) : m = n := by
  rcases mem_nodes_iff.mp hm with rfl | ⟨c, hc, -⟩
  · rfl
  · rw [(h.spelled (isToken_iff.mp htoken).1).1] at hc
    cases hc

/-- The token takes up as many bytes as its spelling. -/
theorem IsPlaced.stop_token (h : n.IsPlaced source) (htoken : n.isToken spelling = true) :
    n.stop = n.start + byteLength spelling.toList := by
  obtain ⟨before, after, -, hstart, hstop⟩ := h.holds_token htoken
  rw [byteLength_append, ← hstart] at hstop
  exact hstop

end

end SyntaxNode

end FieldInjection
