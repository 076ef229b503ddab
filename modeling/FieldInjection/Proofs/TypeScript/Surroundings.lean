import FieldInjection.Proofs.Syntax.Changes
import FieldInjection.Proofs.TypeScript.Grammar
import FieldInjection.Proofs.TypeScript.Likeness

/-!
# What stands around a changed import statement

Import statements are found at any depth, so a class may stand around one. What is read of the class is its name and
the parameters of its constructor, which is found by the names of the members (`readParts`). If the statement stands
in none of these, the class is read alike when the statement is changed (`readClass?_around`).
-/

namespace FieldInjection.TypeScript

open SyntaxNode

/-- The nodes below a node from which it is read: the name of a class, those of its members, the parameters of its
constructors, and all of an import statement. -/
def readParts (source : List Char) (n : SyntaxNode) : List SyntaxNode :=
  if n.isClass then
    (n.childIn? "name").toList ++ (n.childIn? "body").toList.flatMap fun body => (members body).flatMap fun m =>
      (m.childIn? "name").toList ++ if isConstructor source m then (m.childIn? "parameters").toList else []
  else if n.kind = "import_statement" then n.children
  else []

/-- An import statement becomes another one. -/
def RewritesStatement (statement m m' : SyntaxNode) : Prop :=
  m = statement ∧ statement.kind = "import_statement" ∧ m.HasLabelOf m'

section
variable {source source' : List Char} {file : Path} {n n' a a' b b' statement : SyntaxNode}

theorem readImport?_eq_none (h : n.kind ≠ "import_statement") : readImport? source n = none := by
  rw [readImport?, moduleOf?, if_neg h]
  rfl

theorem readClass?_eq_none (h : n.isClass = false) : readClass? file source n = none := by
  have hkind : ¬ (n.kind = "class_declaration" ∨ n.kind = "abstract_class_declaration") := by
    simpa [isClass] using h
  rw [readClass?, classParts?, if_neg hkind]
  rfl

theorem isClass_eq_of_label (h : n.HasLabelOf n') : n.isClass = n'.isClass := by
  rw [isClass, isClass, h.kind]

theorem mem_readParts_name {name : SyntaxNode} (hclass : a.isClass = true) (hname : a.childIn? "name" = some name) :
    name ∈ readParts source a := by
  simp [readParts, hclass, hname]

theorem mem_readParts_member {body m part : SyntaxNode} (hclass : a.isClass = true)
    (hbody : a.childIn? "body" = some body) (hm : m ∈ members body)
    (hpart : m.childIn? "name" = some part ∨ (isConstructor source m = true ∧ m.childIn? "parameters" = some part)) :
    part ∈ readParts source a := by
  have hmember : part ∈ (m.childIn? "name").toList ++
      if isConstructor source m then (m.childIn? "parameters").toList else [] := by
    rcases hpart with hpart | ⟨hconstructor, hpart⟩
    · exact List.mem_append_left _ (by simp [hpart])
    · exact List.mem_append_right _ (by simp [hconstructor, hpart])
  rw [readParts, if_pos hclass, hbody]
  exact List.mem_append_right _ (List.mem_flatMap.mpr ⟨body, by simp, List.mem_flatMap.mpr ⟨m, hm, hmember⟩⟩)

/-- A member is called as it was, and has the same parameters, if the statement stands in neither. -/
theorem membersAgree_around (h : ChangedAt source source' (RewritesStatement statement) n n')
    (hname : ∀ m, n.childIn? "name" = some m → statement ∉ m.nodes)
    (hparameters : isConstructor source n = true → ∀ m, n.childIn? "parameters" = some m → statement ∉ m.nodes) :
    MembersAgree source source' n n' := by
  have hlabel := h.hasLabelOf fun _ _ hm => hm.2.2
  cases h with
  | here h =>
    -- a statement is no member that counts
    obtain ⟨rfl, hkind, -⟩ := h
    have hkind' := hlabel.kind.symm.trans hkind
    exact ⟨by simp [isConstructor, hkind, hkind'], by simp [isConstructorSignature, hkind, hkind'],
      by simp [isConstructor, hkind]⟩
  | inChild hreplaces hchild =>
    have hlabelChild := hchild.hasLabelOf fun _ _ hm => hm.2.2
    obtain ⟨m, hm, _, -, rfl, -, -⟩ := hchild.exists_changed
    have hcalled : isCalledConstructor source n = isCalledConstructor source' n' :=
      isCalledConstructor_of_rel (hreplaces.childIn?_rel_of_apart hlabelChild hm hname)
    refine ⟨?_, ?_, ?_⟩
    · rw [isConstructor, isConstructor, hlabel.kind, hcalled]
    · rw [isConstructorSignature, isConstructorSignature, hlabel.kind, hcalled]
    · intro hconstructor
      exact hreplaces.childIn?_rel_of_apart hlabelChild hm (hparameters hconstructor)

/-- In the body around the statement the same constructor is found. -/
theorem bodiesAgree_around (h : ChangedAt source source' (RewritesStatement statement) b b')
    (hname : ∀ d ∈ members b, ∀ m, d.childIn? "name" = some m → statement ∉ m.nodes)
    (hparameters : ∀ d ∈ members b, isConstructor source d = true →
      ∀ m, d.childIn? "parameters" = some m → statement ∉ m.nodes) : BodiesAgree source source' b b' := by
  refine ⟨(h.hasLabelOf fun _ _ hm => hm.2.2).kind, fun hbody => findConstructor?_rel ?_⟩
  cases h with
  | here h =>
    -- the body is no statement
    obtain ⟨rfl, hkind, -⟩ := h
    rw [hkind] at hbody
    exact absurd hbody (by decide)
  | @inChild left right child child' _ _ hreplaces hchild =>
    have hlabelChild := hchild.hasLabelOf fun _ _ hm => hm.2.2
    have hmembers : List.Forall₂ (fun m m' => SyntaxNode.IsAlike source source' m m' ∨ (m = child ∧ m' = child'))
        (members b) (members b') := by
      refine filter_forall₂ (filter_forall₂ hreplaces.children_rel ?_) ?_
      · rintro m m' (halike | ⟨rfl, rfl⟩)
        · exact halike.isNamed
        · exact hlabelChild.isNamed
      · rintro m m' (halike | ⟨rfl, rfl⟩)
        · rw [halike.isComment]
        · rw [isComment, isComment, hlabelChild.kind]
    -- one member stands around the statement, the others read alike
    refine ((List.forall₂_and_left _ _).mpr ⟨fun _ hm => hm, hmembers⟩).imp ?_
    rintro m m' ⟨hm, halike | ⟨rfl, rfl⟩⟩
    · exact membersAgree_alike halike
    · exact membersAgree_around hchild (hname m hm) (hparameters m hm)

/-- The class around the statement is read alike, if the statement stands in no part that is read. -/
theorem readClass?_around {left right : List SyntaxNode} {c c' : SyntaxNode}
    (hreplaces : ReplacesChild source source' left c c' right a a')
    (hchild : ChangedAt source source' (RewritesStatement statement) c c')
    (hapart : ∀ part ∈ readParts source a, statement ∉ part.nodes) :
    Option.Rel ClassDecl.IsAlike (readClass? file source a) (readClass? file source' a') := by
  cases hclass : a.isClass with
  | false =>
    rw [readClass?_eq_none hclass, readClass?_eq_none (isClass_eq_of_label hreplaces.label ▸ hclass)]
    exact .none
  | true =>
    have hlabelChild := hchild.hasLabelOf fun _ _ hm => hm.2.2
    obtain ⟨m, hm, _, -, rfl, -, -⟩ := hchild.exists_changed
    refine readClass?_rel hreplaces.label.kind ?_ ?_
    · exact hreplaces.childIn?_rel_of_apart hlabelChild hm fun k hk => hapart k (mem_readParts_name hclass hk)
    · rcases cases_of_rel (hreplaces.childIn?_cases hlabelChild "body") with
        ⟨hnone, hnone'⟩ | ⟨b, b', hb, hb', halike | ⟨rfl, rfl⟩⟩
      · rw [hnone, hnone']
        exact .none
      · -- the statement stands in the head of the class
        rw [hb, hb']
        exact .some (bodiesAgree_alike halike)
      · rw [hb, hb']
        exact .some (bodiesAgree_around hchild
          (fun d hd k hk => hapart k (mem_readParts_member hclass hb hd (Or.inl hk)))
          fun d hd hconstructor k hk => hapart k (mem_readParts_member hclass hb hd (Or.inr ⟨hconstructor, hk⟩)))

end

end FieldInjection.TypeScript
