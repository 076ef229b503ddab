import FieldInjection.Proofs.Lists
import FieldInjection.Proofs.Syntax.Nodes

/-!
# Nodes that read alike

A node of one text and a node of another one are alike if they stand for the same with the same text, and so do the
nodes below them, one by one. Where they stand makes no difference. So it is with the nodes of a text that is moved when
something is written in front of it.
-/

namespace FieldInjection.SyntaxNode

section
variable (source source' : List Char)

mutual

/-- Two nodes stand for the same with the same text, and so do the nodes below them. -/
def IsAlike : SyntaxNode → SyntaxNode → Prop
  | node l cs, node l' cs' => l.kind = l'.kind ∧ l.isNamed = l'.isNamed ∧ l.field? = l'.field? ∧
      (node l cs).text source = (node l' cs').text source' ∧ AreAlike cs cs'

/-- Nodes are alike one by one. -/
def AreAlike : List SyntaxNode → List SyntaxNode → Prop
  | [], [] => True
  | n :: ns, n' :: ns' => IsAlike n n' ∧ AreAlike ns ns'
  | _, _ => False

end

mutual

def decideAlike : (n n' : SyntaxNode) → Decidable (IsAlike source source' n n')
  | node l cs, node l' cs' =>
    have := decideAllAlike cs cs'
    inferInstanceAs (Decidable (l.kind = l'.kind ∧ l.isNamed = l'.isNamed ∧ l.field? = l'.field? ∧
      (node l cs).text source = (node l' cs').text source' ∧ AreAlike source source' cs cs'))

def decideAllAlike : (ns ns' : List SyntaxNode) → Decidable (AreAlike source source' ns ns')
  | [], [] => isTrue trivial
  | n :: ns, n' :: ns' =>
    have := decideAlike n n'
    have := decideAllAlike ns ns'
    inferInstanceAs (Decidable (IsAlike source source' n n' ∧ AreAlike source source' ns ns'))
  | [], _ :: _ => isFalse id
  | _ :: _, [] => isFalse id

end

instance (n n' : SyntaxNode) : Decidable (IsAlike source source' n n') := decideAlike source source' n n'

instance (ns ns' : List SyntaxNode) : Decidable (AreAlike source source' ns ns') :=
  decideAllAlike source source' ns ns'

end

section
variable {source source' : List Char} {n n' : SyntaxNode} {ns ns' : List SyntaxNode}

theorem areAlike_iff : AreAlike source source' ns ns' ↔ List.Forall₂ (IsAlike source source') ns ns' := by
  induction ns generalizing ns' with
  | nil => cases ns' <;> simp [AreAlike]
  | cons n ns ih => cases ns' <;> simp [AreAlike, ih]

namespace IsAlike

theorem kind (h : IsAlike source source' n n') : n.kind = n'.kind := by
  cases n
  cases n'
  exact h.1

theorem isNamed (h : IsAlike source source' n n') : n.isNamed = n'.isNamed := by
  cases n
  cases n'
  exact h.2.1

theorem field? (h : IsAlike source source' n n') : n.field? = n'.field? := by
  cases n
  cases n'
  exact h.2.2.1

theorem text (h : IsAlike source source' n n') : n.text source = n'.text source' := by
  cases n
  cases n'
  exact h.2.2.2.1

theorem children (h : IsAlike source source' n n') : List.Forall₂ (IsAlike source source') n.children n'.children := by
  cases n
  cases n'
  exact areAlike_iff.mp h.2.2.2.2

theorem isToken (h : IsAlike source source' n n') (spelling : String) : n.isToken spelling = n'.isToken spelling := by
  rw [SyntaxNode.isToken, SyntaxNode.isToken, h.isNamed, h.kind]

theorem isComment (h : IsAlike source source' n n') : n.isComment = n'.isComment := by
  rw [SyntaxNode.isComment, SyntaxNode.isComment, h.kind]

theorem namedChildren (h : IsAlike source source' n n') :
    List.Forall₂ (IsAlike source source') n.namedChildren n'.namedChildren :=
  filter_forall₂ h.children fun _ _ hcd => hcd.isNamed

theorem childIn? (h : IsAlike source source' n n') (field : String) :
    Option.Rel (IsAlike source source') (n.childIn? field) (n'.childIn? field) :=
  find?_rel h.children fun _ _ hcd => by rw [hcd.field?]

end IsAlike

theorem nodesOfList_rel {R : SyntaxNode → SyntaxNode → Prop}
    (h : List.Forall₂ (fun n n' => List.Forall₂ R n.nodes n'.nodes) ns ns') :
    List.Forall₂ R (nodesOfList ns) (nodesOfList ns') := by
  induction h with
  | nil => exact .nil
  | cons hn _ ih => exact List.rel_append hn ih

/-- Nodes that are alike have alike nodes below them, in the same order. -/
theorem IsAlike.nodes (h : IsAlike source source' n n') : List.Forall₂ (IsAlike source source') n.nodes n'.nodes := by
  induction n using SyntaxNode.induct generalizing n' with
  | h n ih =>
    rw [nodes_eq, nodes_eq n']
    have hboth : List.Forall₂ (fun c c' => (∀ d, IsAlike source source' c d →
        List.Forall₂ (IsAlike source source') c.nodes d.nodes) ∧ IsAlike source source' c c') n.children n'.children :=
      (List.forall₂_and_left _ _).mpr ⟨fun c hc _ hd => ih c hc hd, h.children⟩
    exact .cons h (nodesOfList_rel (hboth.imp fun _ _ hc => hc.1 _ hc.2))

theorem nodesOfList_alike (h : List.Forall₂ (IsAlike source source') ns ns') :
    List.Forall₂ (IsAlike source source') (nodesOfList ns) (nodesOfList ns') :=
  nodesOfList_rel (h.imp fun _ _ hn => hn.nodes)

end

end FieldInjection.SyntaxNode
