import FieldInjection.Proofs.Syntax.Likeness
import FieldInjection.Proofs.Syntax.Placement

/-!
# Trees that differ in one place

When something is written into a text, a parser that works by a grammar reads all else as before: one node has other
children, the nodes around it take up more room, and every other node reads alike. Here it is said what that means, and
what two such trees have in common (`ChangedAt.filterMap_nodes`, `ChangedAt.differInOne`).
-/

namespace FieldInjection.SyntaxNode

/-- Two nodes stand for the same, wherever they stand. -/
structure HasLabelOf (n n' : SyntaxNode) : Prop where
  kind : n.kind = n'.kind
  isNamed : n.isNamed = n'.isNamed
  field? : n.field? = n'.field?

section
variable (source source' : List Char)

/-- One child of a node is replaced, and the others read alike. -/
structure ReplacesChild (left : List SyntaxNode) (child child' : SyntaxNode) (right : List SyntaxNode)
    (n n' : SyntaxNode) : Prop where
  label : n.HasLabelOf n'
  children : n.children = left ++ child :: right
  children' : ∃ left' right', n'.children = left' ++ child' :: right' ∧
    List.Forall₂ (IsAlike source source') left left' ∧ List.Forall₂ (IsAlike source source') right right'

/-- A node has new children among those that it had, which read alike. -/
structure InsertsChildren (front new back : List SyntaxNode) (n n' : SyntaxNode) : Prop where
  label : n.HasLabelOf n'
  children : n.children = front ++ back
  children' : ∃ front' back', n'.children = front' ++ (new ++ back') ∧
    List.Forall₂ (IsAlike source source') front front' ∧ List.Forall₂ (IsAlike source source') back back'

/-- A node below is changed as the relation says. The nodes around it stand for the same, and all others read alike. -/
inductive ChangedAt (R : SyntaxNode → SyntaxNode → Prop) : SyntaxNode → SyntaxNode → Prop
  | here {n n' : SyntaxNode} (h : R n n') : ChangedAt R n n'
  | inChild {left right : List SyntaxNode} {child child' n n' : SyntaxNode}
      (h : ReplacesChild source source' left child child' right n n') (hchild : ChangedAt R child child') :
      ChangedAt R n n'

end

section
variable {source source' : List Char} {R : SyntaxNode → SyntaxNode → Prop} {n n' : SyntaxNode}
  {left front new back right : List SyntaxNode} {child child' : SyntaxNode}

theorem IsAlike.hasLabelOf (h : IsAlike source source' n n') : n.HasLabelOf n' := ⟨h.kind, h.isNamed, h.field?⟩

theorem ReplacesChild.mem (h : ReplacesChild source source' left child child' right n n') : child ∈ n.children := by
  rw [h.children]
  exact List.mem_append_right left List.mem_cons_self

/-- The changed node stands below, with what it has become. -/
theorem ChangedAt.exists_changed (h : ChangedAt source source' R n n') :
    ∃ m ∈ n.nodes, ∃ m' ∈ n'.nodes, R m m' := by
  induction h with
  | here h => exact ⟨_, self_mem_nodes _, _, self_mem_nodes _, h⟩
  | inChild h _ ih =>
    obtain ⟨m, hm, m', hm', hR⟩ := ih
    obtain ⟨left', right', hchildren', -, -⟩ := h.children'
    refine ⟨m, mem_nodes_iff.mpr (Or.inr ⟨_, h.mem, hm⟩), m', mem_nodes_iff.mpr (Or.inr ⟨_, ?_, hm'⟩), hR⟩
    rw [hchildren']
    exact List.mem_append_right left' List.mem_cons_self

/-- One child is replaced by another one in its place. -/
theorem replacesChild_of_getElem? {k : Nat} (hlabel : n.HasLabelOf n') (hchild : n.children[k]? = some child)
    (hchild' : n'.children[k]? = some child')
    (hleft : AreAlike source source' (n.children.take k) (n'.children.take k))
    (hright : AreAlike source source' (n.children.drop (k + 1)) (n'.children.drop (k + 1))) :
    ReplacesChild source source' (n.children.take k) child child' (n.children.drop (k + 1)) n n' := by
  obtain ⟨hk, rfl⟩ := List.getElem?_eq_some_iff.mp hchild
  obtain ⟨hk', rfl⟩ := List.getElem?_eq_some_iff.mp hchild'
  refine ⟨hlabel, ?_, n'.children.take k, n'.children.drop (k + 1), ?_, areAlike_iff.mp hleft, areAlike_iff.mp hright⟩
  · rw [List.getElem_cons_drop, List.take_append_drop]
  · rw [List.getElem_cons_drop, List.take_append_drop]

/-- Some children stand behind others. -/
theorem insertsChildren_of_take {k m : Nat} (hlabel : n.HasLabelOf n')
    (hfront : AreAlike source source' (n.children.take k) (n'.children.take k))
    (hback : AreAlike source source' (n.children.drop k) (n'.children.drop (k + m))) :
    InsertsChildren source source' (n.children.take k) ((n'.children.drop k).take m) (n.children.drop k) n n' := by
  refine ⟨hlabel, (List.take_append_drop _ _).symm, n'.children.take k, n'.children.drop (k + m), ?_,
    areAlike_iff.mp hfront, areAlike_iff.mp hback⟩
  rw [← List.drop_drop, List.take_append_drop, List.take_append_drop]

/-- A search that passes over the children in front finds the one that is replaced. -/
theorem ReplacesChild.find? {p : SyntaxNode → Bool} (h : ReplacesChild source source' left child child' right n n')
    (hp : ∀ m m', IsAlike source source' m m' → p m = p m') (hleft : ∀ m ∈ left, p m = false) (hchild : p child = true)
    (hchild' : p child' = true) : n.children.find? p = some child ∧ n'.children.find? p = some child' := by
  obtain ⟨left', right', hchildren', hleft', -⟩ := h.children'
  have hnone : left.find? p = none := List.find?_eq_none.mpr fun m hm => by simp [hleft m hm]
  have hnone' : left'.find? p = none := by
    rcases cases_of_rel (find?_rel hleft' hp) with ⟨-, hnone'⟩ | ⟨m, m', hm, -, -⟩
    · exact hnone'
    · rw [hnone] at hm
      cases hm
  rw [h.children, hchildren', List.find?_append, List.find?_append, hnone, hnone']
  simp [hchild, hchild']

/-- A search that is not for the replaced child finds what reads alike. -/
theorem ReplacesChild.find?_rel {p : SyntaxNode → Bool} (h : ReplacesChild source source' left child child' right n n')
    (hp : ∀ m m', IsAlike source source' m m' → p m = p m') (hchild : p child = false) (hchild' : p child' = false) :
    Option.Rel (IsAlike source source') (n.children.find? p) (n'.children.find? p) := by
  obtain ⟨left', right', hchildren', hleft, hright⟩ := h.children'
  have hboth : List.Forall₂ (IsAlike source source') (left ++ right) (left' ++ right') := List.rel_append hleft hright
  have heq : n.children.find? p = (left ++ right).find? p := by
    rw [h.children, List.find?_append, List.find?_append, List.find?_cons, hchild]
  have heq' : n'.children.find? p = (left' ++ right').find? p := by
    rw [hchildren', List.find?_append, List.find?_append, List.find?_cons, hchild']
  rw [heq, heq']
  exact FieldInjection.find?_rel hboth hp

/-- The children agree one by one: they read alike, or have been replaced. -/
theorem ReplacesChild.children_rel (h : ReplacesChild source source' left child child' right n n') :
    List.Forall₂ (fun m m' => IsAlike source source' m m' ∨ (m = child ∧ m' = child')) n.children n'.children := by
  obtain ⟨left', right', hchildren', hleft, hright⟩ := h.children'
  rw [h.children, hchildren']
  refine List.rel_append (hleft.imp fun _ _ hm => Or.inl hm) (.cons (Or.inr ⟨rfl, rfl⟩) ?_)
  exact hright.imp fun _ _ hm => Or.inl hm

/-- What stands in a field reads alike, or has been replaced. -/
theorem ReplacesChild.childIn?_cases (h : ReplacesChild source source' left child child' right n n')
    (hlabel : child.HasLabelOf child') (field : String) :
    Option.Rel (fun m m' => IsAlike source source' m m' ∨ (m = child ∧ m' = child')) (n.childIn? field)
      (n'.childIn? field) := by
  refine FieldInjection.find?_rel h.children_rel ?_
  rintro m m' (halike | ⟨rfl, rfl⟩)
  · rw [halike.field?]
  · rw [hlabel.field?]

/-- What stands in a field reads alike if it holds nothing of the child that is replaced. -/
theorem ReplacesChild.childIn?_rel_of_apart {field : String} {m : SyntaxNode}
    (h : ReplacesChild source source' left child child' right n n') (hlabel : child.HasLabelOf child')
    (hm : m ∈ child.nodes) (hapart : ∀ k, n.childIn? field = some k → m ∉ k.nodes) :
    Option.Rel (IsAlike source source') (n.childIn? field) (n'.childIn? field) := by
  rcases cases_of_rel (h.childIn?_cases hlabel field) with ⟨hnone, hnone'⟩ | ⟨k, k', hk, hk', halike | ⟨rfl, rfl⟩⟩
  · rw [hnone, hnone']
    exact .none
  · rw [hk, hk']
    exact .some halike
  · exact absurd hm (hapart k hk)

/-- What stands in another field than the child that is replaced reads alike. -/
theorem ReplacesChild.childIn?_rel (h : ReplacesChild source source' left child child' right n n') (field : String)
    (hlabel : child.HasLabelOf child') (hfield : child.field? ≠ some field) :
    Option.Rel (IsAlike source source') (n.childIn? field) (n'.childIn? field) :=
  h.find?_rel (fun _ _ hm => by rw [hm.field?]) (beq_eq_false_iff_ne.mpr hfield)
    (beq_eq_false_iff_ne.mpr (hlabel.field? ▸ hfield))

/-- A search that finds the child that is replaced finds what has come in its place. -/
theorem ReplacesChild.find?_eq_some {p q : SyntaxNode → Bool}
    (h : ReplacesChild source source' left child child' right n n') (hplaced : n.IsPlaced source)
    (hp : ∀ m m', IsAlike source source' m m' → p m = q m') (hfind : n.children.find? p = some child)
    (hq : q child' = true) : n'.children.find? q = some child' := by
  obtain ⟨left', right', hchildren', hleft, -⟩ := h.children'
  have hnone : left.find? p = none := by
    -- what is found in front of the child is another one
    cases hfound : left.find? p with
    | none => rfl
    | some m =>
      rw [h.children, List.find?_append, hfound, Option.some_or] at hfind
      obtain rfl := Option.some.inj hfind
      have hordered := hplaced.ordered
      rw [h.children] at hordered
      have hle := (List.pairwise_append.mp hordered).2.2 m (List.mem_of_find?_eq_some hfound) m List.mem_cons_self
      exact absurd (hplaced.nonempty m h.mem) (Nat.not_lt.mpr hle)
  have hnone' : left'.find? q = none := by
    rcases cases_of_rel (FieldInjection.find?_rel hleft hp) with ⟨-, hnone'⟩ | ⟨m, m', hm, -, -⟩
    · exact hnone'
    · rw [hnone] at hm
      cases hm
  rw [hchildren', List.find?_append, hnone', Option.none_or, List.find?_cons, hq]

theorem ReplacesChild.childIn?_eq_some {field : String}
    (h : ReplacesChild source source' left child child' right n n') (hplaced : n.IsPlaced source)
    (hlabel : child.HasLabelOf child') (hfind : n.childIn? field = some child) : n'.childIn? field = some child' := by
  refine h.find?_eq_some hplaced (fun _ _ hm => by rw [hm.field?]) hfind ?_
  rw [← hlabel.field?, (mem_children_of_childIn? hfind).2]
  exact beq_self_eq_true _

/-- A search that finds nothing among the old children finds what it finds among the new ones. -/
theorem InsertsChildren.find? {p : SyntaxNode → Bool} (h : InsertsChildren source source' front new back n n')
    (hp : ∀ m m', IsAlike source source' m m' → p m = p m') (hnone : n.children.find? p = none) :
    n'.children.find? p = new.find? p := by
  obtain ⟨front', back', hchildren', hfront, hback⟩ := h.children'
  have hboth : List.Forall₂ (IsAlike source source') (front ++ back) (front' ++ back') := List.rel_append hfront hback
  have hnone' : (front' ++ back').find? p = none := by
    rcases cases_of_rel (find?_rel hboth hp) with ⟨-, hnone'⟩ | ⟨m, m', hm, -, -⟩
    · exact hnone'
    · rw [← h.children, hnone] at hm
      cases hm
  rw [List.find?_append, Option.or_eq_none_iff] at hnone'
  rw [hchildren', List.find?_append, List.find?_append, hnone'.1, hnone'.2, Option.none_or, Option.or_none]

/-! ## On the way to the change -/

theorem ChangedAt.mono {Q : SyntaxNode → SyntaxNode → Prop} (h : ChangedAt source source' R n n')
    (hRQ : ∀ m m', R m m' → Q m m') : ChangedAt source source' Q n n' := by
  induction h with
  | here h => exact .here (hRQ _ _ h)
  | inChild h _ ih => exact .inChild h ih

theorem ChangedAt.hasLabelOf (h : ChangedAt source source' R n n') (hR : ∀ m m', R m m' → m.HasLabelOf m') :
    n.HasLabelOf n' := by
  cases h with
  | here h => exact hR _ _ h
  | inChild h _ => exact h.label

/-- The child below which the changed node stands is changed. -/
theorem ChangedAt.toChild {c m : SyntaxNode} (h : ChangedAt source source' R n n') (hplaced : n.ArePlaced source)
    (hR : ∀ k k', R k k' → k = m) (hc : c ∈ n.children) (hm : m ∈ c.nodes) :
    ∃ left right c', ReplacesChild source source' left c c' right n n' ∧ ChangedAt source source' R c c' := by
  cases h with
  | here h =>
    obtain rfl := hR _ _ h
    exact absurd hm (not_mem_nodes_of_mem_children hc)
  | @inChild left right child child' _ _ hreplaces hchild =>
    obtain ⟨k, hk, _, _, hkR⟩ := hchild.exists_changed
    obtain rfl := hR _ _ hkR
    obtain rfl : child = c := hplaced.eq_of_mem_both hreplaces.mem hc hk hm
    exact ⟨left, right, child', hreplaces, hchild⟩

/-- A node around the changed one is changed. -/
theorem ChangedAt.around {m k : SyntaxNode} (h : ChangedAt source source' R n n') (hplaced : n.ArePlaced source)
    (hR : ∀ k k', R k k' → k = m) (hk : k ∈ n.nodes) (hm : m ∈ k.nodes) :
    ∃ k' ∈ n'.nodes, ChangedAt source source' R k k' := by
  induction h with
  | @here n n' h =>
    obtain rfl := hR _ _ h
    obtain rfl := eq_of_mem_nodes hk hm
    exact ⟨n', self_mem_nodes n', .here h⟩
  | @inChild left right child child' n n' hreplaces hchild ih =>
    rcases mem_nodes_iff.mp hk with rfl | ⟨c, hc, hkc⟩
    · exact ⟨n', self_mem_nodes n', .inChild hreplaces hchild⟩
    · obtain ⟨j, hj, _, _, hjR⟩ := hchild.exists_changed
      obtain rfl := hR _ _ hjR
      obtain rfl : child = c := hplaced.eq_of_mem_both hreplaces.mem hc hj (mem_nodes_trans hm hkc)
      obtain ⟨k', hk', hchanged⟩ := ih (hplaced.child hc) hkc
      obtain ⟨left', right', hchildren', -, -⟩ := hreplaces.children'
      refine ⟨k', mem_nodes_iff.mpr (Or.inr ⟨child', ?_, hk'⟩), hchanged⟩
      rw [hchildren']
      exact List.mem_append_right left' List.mem_cons_self

/-! ## What is found in trees -/

section
variable {α β : Type} {P : α → β → Prop} {f : SyntaxNode → Option α} {f' : SyntaxNode → Option β}

theorem nodesOfList_append (ns ms : List SyntaxNode) : nodesOfList (ns ++ ms) = nodesOfList ns ++ nodesOfList ms := by
  induction ns with
  | nil => rfl
  | cons n ns ih => rw [List.cons_append, nodesOfList_cons, nodesOfList_cons, ih, List.append_assoc]

theorem filterMap_nodesOfList_alike (hf : ∀ m m', IsAlike source source' m m' → Option.Rel P (f m) (f' m'))
    {ns ns' : List SyntaxNode} (h : List.Forall₂ (IsAlike source source') ns ns') :
    List.Forall₂ P ((nodesOfList ns).filterMap f) ((nodesOfList ns').filterMap f') :=
  List.rel_filterMap (fun _ _ hm => hf _ _ hm) (nodesOfList_alike h)

theorem filterMap_nodes (f : SyntaxNode → Option α) (n : SyntaxNode) :
    n.nodes.filterMap f = (f n).toList ++ (nodesOfList n.children).filterMap f := by
  rw [nodes_eq, List.filterMap_cons]
  cases f n <;> rfl

theorem filterMap_nodes_rel (hself : Option.Rel P (f n) (f' n'))
    (hchildren : List.Forall₂ P ((nodesOfList n.children).filterMap f) ((nodesOfList n'.children).filterMap f')) :
    List.Forall₂ P (n.nodes.filterMap f) (n'.nodes.filterMap f') := by
  rw [filterMap_nodes, filterMap_nodes]
  exact List.rel_append (forall₂_toList hself) hchildren

/-- What is found below the children of a node, one of which is replaced. -/
theorem ReplacesChild.filterMap_children (h : ReplacesChild source source' left child child' right n n')
    (hf : ∀ m m', IsAlike source source' m m' → Option.Rel P (f m) (f' m'))
    (hchild : List.Forall₂ P (child.nodes.filterMap f) (child'.nodes.filterMap f')) :
    List.Forall₂ P ((nodesOfList n.children).filterMap f) ((nodesOfList n'.children).filterMap f') := by
  obtain ⟨left', right', hchildren', hleft, hright⟩ := h.children'
  rw [h.children, hchildren']
  simp only [nodesOfList_append, nodesOfList_cons, List.filterMap_append]
  exact List.rel_append (filterMap_nodesOfList_alike hf hleft)
    (List.rel_append hchild (filterMap_nodesOfList_alike hf hright))

/-- What is found below the children of a node with new ones, none of which holds anything. -/
theorem InsertsChildren.filterMap_children (h : InsertsChildren source source' front new back n n')
    (hf : ∀ m m', IsAlike source source' m m' → Option.Rel P (f m) (f' m'))
    (hnew : (nodesOfList new).filterMap f' = []) :
    List.Forall₂ P ((nodesOfList n.children).filterMap f) ((nodesOfList n'.children).filterMap f') := by
  obtain ⟨front', back', hchildren', hfront, hback⟩ := h.children'
  rw [h.children, hchildren']
  simp only [nodesOfList_append, List.filterMap_append, hnew, List.nil_append]
  exact List.rel_append (filterMap_nodesOfList_alike hf hfront) (filterMap_nodesOfList_alike hf hback)

/-- What is found in two trees that differ in one place, if what is found at this place and around it agrees. -/
theorem ChangedAt.filterMap_nodes (h : ChangedAt source source' R n n')
    (hf : ∀ m m', IsAlike source source' m m' → Option.Rel P (f m) (f' m'))
    (haround : ∀ a a' left right c c', a ∈ n.nodes → ReplacesChild source source' left c c' right a a' →
      ChangedAt source source' R c c' → Option.Rel P (f a) (f' a'))
    (hchanged : ∀ m m', R m m' → List.Forall₂ P (m.nodes.filterMap f) (m'.nodes.filterMap f')) :
    List.Forall₂ P (n.nodes.filterMap f) (n'.nodes.filterMap f') := by
  induction h with
  | here h => exact hchanged _ _ h
  | inChild h hchild ih =>
    refine filterMap_nodes_rel (haround _ _ _ _ _ _ (self_mem_nodes _) h hchild) (h.filterMap_children hf (ih ?_))
    intro a a' left right c c' ha
    exact haround a a' left right c c' (mem_nodes_iff.mpr (Or.inr ⟨_, h.mem, ha⟩))

/-- Two lists differ in one member, and the others are related one by one. -/
def DifferInOne (P Q : α → β → Prop) (xs : List α) (ys : List β) : Prop :=
  ∃ before x after before' y after', xs = before ++ x :: after ∧ ys = before' ++ y :: after' ∧
    List.Forall₂ P before before' ∧ Q x y ∧ List.Forall₂ P after after'

theorem DifferInOne.append {Q : α → β → Prop} {front back : List α} {front' back' : List β} {xs : List α} {ys : List β}
    (h : DifferInOne P Q xs ys) (hfront : List.Forall₂ P front front') (hback : List.Forall₂ P back back') :
    DifferInOne P Q (front ++ (xs ++ back)) (front' ++ (ys ++ back')) := by
  obtain ⟨before, x, after, before', y, after', rfl, rfl, hbefore, hQ, hafter⟩ := h
  refine ⟨front ++ before, x, after ++ back, front' ++ before', y, after' ++ back', ?_, ?_, ?_, hQ, ?_⟩
  · simp
  · simp
  · exact List.rel_append hfront hbefore
  · exact List.rel_append hafter hback

/-- What is found in two trees that differ in one place, if what is found at this place differs in one member. -/
theorem ChangedAt.differInOne {Q : α → β → Prop} (h : ChangedAt source source' R n n')
    (hf : ∀ m m', IsAlike source source' m m' → Option.Rel P (f m) (f' m'))
    (haround : ∀ a a' left right c c', a ∈ n.nodes → ReplacesChild source source' left c c' right a a' →
      ChangedAt source source' R c c' → Option.Rel P (f a) (f' a'))
    (hchanged : ∀ m m', R m m' → DifferInOne P Q (m.nodes.filterMap f) (m'.nodes.filterMap f')) :
    DifferInOne P Q (n.nodes.filterMap f) (n'.nodes.filterMap f') := by
  induction h with
  | here h => exact hchanged _ _ h
  | @inChild left right child child' n n' h hchild ih =>
    have hbelow := ih fun a a' left right c c' ha =>
      haround a a' left right c c' (mem_nodes_iff.mpr (Or.inr ⟨_, h.mem, ha⟩))
    have hself : Option.Rel P (f n) (f' n') := haround _ _ _ _ _ _ (self_mem_nodes _) h hchild
    obtain ⟨left', right', hchildren', hleft, hright⟩ := h.children'
    rw [SyntaxNode.filterMap_nodes, SyntaxNode.filterMap_nodes, h.children, hchildren']
    simp only [nodesOfList_append, nodesOfList_cons, List.filterMap_append, ← List.append_assoc]
    rw [List.append_assoc, List.append_assoc (_ ++ _)]
    exact hbelow.append (List.rel_append (forall₂_toList hself) (filterMap_nodesOfList_alike hf hleft))
      (filterMap_nodesOfList_alike hf hright)

end

end

end FieldInjection.SyntaxNode
