import FieldInjection.Proofs.Syntax.Changes
import Mathlib.Data.List.Find

/-!
# Nodes with comments

A comment may stand among the children of any node, and in no field. So a node that has been given comments has the same
children besides them, and what is looked for among its children by kind or by field is found as before. A child that is
found by its position is not: the first named child may be a comment now.
-/

namespace FieldInjection.SyntaxNode

mutual

def decideEq : (n m : SyntaxNode) → Decidable (n = m)
  | node l cs, node l' cs' =>
    have := decideEqOfList cs cs'
    decidable_of_iff (l = l' ∧ cs = cs') (by rw [node.injEq])

def decideEqOfList : (ns ms : List SyntaxNode) → Decidable (ns = ms)
  | [], [] => isTrue rfl
  | n :: ns, m :: ms =>
    have := decideEq n m
    have := decideEqOfList ns ms
    decidable_of_iff (n = m ∧ ns = ms) (by rw [List.cons.injEq])
  | [], _ :: _ => isFalse fun h => nomatch h
  | _ :: _, [] => isFalse fun h => nomatch h

end

instance : DecidableEq SyntaxNode := decideEq

/-- The children of a node that are no comments. -/
def parts (n : SyntaxNode) : List SyntaxNode := n.children.filter fun c => !c.isComment

/-- A node has been given comments, which stand in no field. Its other children agree one by one. -/
structure TakesComments (R : SyntaxNode → SyntaxNode → Prop) (n n' : SyntaxNode) : Prop where
  label : n.HasLabelOf n'
  parts : List.Forall₂ R n.parts n'.parts
  fieldless : ∀ c ∈ n.children ++ n'.children, c.isComment = true → c.field? = none

/-- A node has been given comments, and none of them has become its first named child. -/
structure TakesCommentsBehind (R : SyntaxNode → SyntaxNode → Prop) (n n' : SyntaxNode) : Prop
    extends TakesComments R n n' where
  head : List.Forall₂ R (n.namedChildren.take 1) (n'.namedChildren.take 1)

instance (n n' : SyntaxNode) : Decidable (n.HasLabelOf n') :=
  decidable_of_iff (n.kind = n'.kind ∧ n.isNamed = n'.isNamed ∧ n.field? = n'.field?)
    ⟨fun ⟨h₁, h₂, h₃⟩ => ⟨h₁, h₂, h₃⟩, fun ⟨h₁, h₂, h₃⟩ => ⟨h₁, h₂, h₃⟩⟩

section
variable {R : SyntaxNode → SyntaxNode → Prop} [∀ n n', Decidable (R n n')]

instance (n n' : SyntaxNode) : Decidable (TakesComments R n n') :=
  decidable_of_iff (n.HasLabelOf n' ∧ List.Forall₂ R n.parts n'.parts ∧
      ∀ c ∈ n.children ++ n'.children, c.isComment = true → c.field? = none)
    ⟨fun ⟨h₁, h₂, h₃⟩ => ⟨h₁, h₂, h₃⟩, fun ⟨h₁, h₂, h₃⟩ => ⟨h₁, h₂, h₃⟩⟩

instance (n n' : SyntaxNode) : Decidable (TakesCommentsBehind R n n') :=
  decidable_of_iff (TakesComments R n n' ∧ List.Forall₂ R (n.namedChildren.take 1) (n'.namedChildren.take 1))
    ⟨fun ⟨h₁, h₂⟩ => ⟨h₁, h₂⟩, fun ⟨h₁, h₂⟩ => ⟨h₁, h₂⟩⟩

end

section
variable {R : SyntaxNode → SyntaxNode → Prop} {n n' : SyntaxNode}

/-- What is no comment is found among the parts. -/
theorem filter_parts {p : SyntaxNode → Bool} (hp : ∀ c, p c = true → c.isComment = false) (n : SyntaxNode) :
    n.parts.filter p = n.children.filter p := by
  rw [SyntaxNode.parts, List.filter_filter]
  refine List.filter_congr fun c _ => ?_
  cases hc : p c with
  | false => rfl
  | true => simp [hp c hc]

theorem isComment_of_kind {kind : String} (hkind : kind ≠ "comment") (c : SyntaxNode) (hc : (c.kind == kind) = true) :
    c.isComment = false := by
  rw [isComment, beq_iff_eq.mp hc, beq_eq_false_iff_ne.mpr hkind]

theorem any_kind_parts {kind : String} (hkind : kind ≠ "comment") (n : SyntaxNode) :
    n.parts.any (·.kind == kind) = n.children.any (·.kind == kind) := by
  rw [SyntaxNode.parts, List.any_filter]
  refine List.any_congr rfl fun c => ?_
  cases hc : c.kind == kind with
  | false => simp
  | true => simp [isComment_of_kind hkind c hc]

namespace TakesComments

/-- What stands in a field is no comment. -/
theorem childIn? (h : TakesComments R n n') (hR : ∀ m m', R m m' → m.field? = m'.field?) (field : String) :
    Option.Rel R (n.childIn? field) (n'.childIn? field) := by
  have hparts : ∀ k : SyntaxNode, (∀ c ∈ k.children, c.isComment = true → c.field? = none) →
      k.childIn? field = k.parts.find? fun c => c.field? == some field := by
    intro k hk
    rw [SyntaxNode.childIn?, SyntaxNode.parts, List.find?_filter]
    refine List.find?_congr fun c hc => ?_
    cases hcomment : c.isComment with
    | false => exact Bool.eq_iff_iff.mpr (by simp)
    | true => simp [hk c hc hcomment]
  rw [hparts n fun c hc => h.fieldless c (List.mem_append_left _ hc),
    hparts n' fun c hc => h.fieldless c (List.mem_append_right _ hc)]
  exact find?_rel h.parts fun m m' hm => by rw [hR m m' hm]

/-- The children of a kind other than comments agree. -/
theorem map_filter_kind {α : Type} {f f' : SyntaxNode → α} {kind : String} (h : TakesComments R n n')
    (hR : ∀ m m', R m m' → m.kind = m'.kind) (hkind : kind ≠ "comment")
    (hf : ∀ m m', R m m' → m.kind = kind → f m = f' m') :
    (n.children.filter (·.kind == kind)).map f = (n'.children.filter (·.kind == kind)).map f' := by
  rw [← filter_parts (isComment_of_kind hkind) n, ← filter_parts (isComment_of_kind hkind) n']
  have hkinds : List.Forall₂ (fun m m' => m.kind = kind ∧ R m m') (n.parts.filter (·.kind == kind))
      (n'.parts.filter (·.kind == kind)) :=
    (List.forall₂_and_left _ _).mpr ⟨fun m hm => beq_iff_eq.mp (List.mem_filter.mp hm).2,
      filter_forall₂ h.parts fun m m' hm => by rw [hR m m' hm]⟩
  exact map_eq_of_forall₂ hkinds fun m m' hm => hf m m' hm.2 hm.1

theorem any_kind (h : TakesComments R n n') (hR : ∀ m m', R m m' → m.kind = m'.kind) {kind : String}
    (hkind : kind ≠ "comment") : n.children.any (·.kind == kind) = n'.children.any (·.kind == kind) := by
  rw [← any_kind_parts hkind n, ← any_kind_parts hkind n']
  exact any_eq_of_forall₂ h.parts fun m m' hm => by rw [hR m m' hm]

end TakesComments

/-- The first named children of two nodes agree. -/
theorem TakesCommentsBehind.head?_rel (h : TakesCommentsBehind R n n') :
    Option.Rel R n.namedChildren.head? n'.namedChildren.head? := by
  have hhead := FieldInjection.head?_rel h.head
  rwa [List.head?_take, List.head?_take] at hhead

end

end FieldInjection.SyntaxNode
