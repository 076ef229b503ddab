import FieldInjection.Edit.Apply
import FieldInjection.Proofs.Syntax.Comments
import FieldInjection.Proofs.Text.Boundary
import FieldInjection.Proofs.TypeScript.Grammar
import FieldInjection.Proofs.TypeScript.Likeness
import FieldInjection.Proofs.TypeScript.Offsets

/-!
# Comments among the parameters of a constructor

A comment becomes a child of the node in whose tokens it is written. What is read of a parameter does not mind
(`parameters_withComments`), as long as the comment does not come first behind the colon of a type, the `@` of a
decorator or the dots of a rest parameter. There the first named child is taken for the type, the expression or the
name, and so is a comment (`comment_taken_for_type`).
-/

namespace FieldInjection

/-- Two parameters are read alike: they say the same, and their decorators mean the same. -/
structure Parameter.ReadsAs (p q : Parameter) : Prop where
  name : p.name = q.name
  binding : p.binding = q.binding
  declaredType : p.declaredType = q.declaredType
  isReadonly : p.isReadonly = q.isReadonly
  isOverride : p.isOverride = q.isOverride
  scope : p.scope = q.scope
  kinds : p.decorators.map Decorator.kind = q.decorators.map Decorator.kind

/-- A comment: one between marks, or one that ends with its line. -/
def IsCommentText (text : String) : Prop :=
  (∃ inner, text.toList = ['/', '*'] ++ inner ++ ['*', '/'] ∧ ¬ ['*', '/'] <:+: inner ++ ['*']) ∨
    ∃ inner, (text.toList = ['/', '/'] ++ inner ++ ['\n'] ∨ text.toList = ['/', '/'] ++ inner ++ ['\r', '\n']) ∧
      ∀ c ∈ inner, c ∉ ['\n', '\r', '\u2028', '\u2029']

namespace SyntaxNode

/-- A node that begins with a sign and takes the first named child behind it for what it says. -/
def isHeaded (n : SyntaxNode) : Bool :=
  n.kind == "type_annotation" || n.kind == "decorator" || n.kind == "rest_pattern"

/-- A node whose inside is text, so that no comment can stand in it. -/
def isVerbatim (n : SyntaxNode) : Bool :=
  n.children.isEmpty || n.kind == "string" || n.kind == "template_string" || n.kind == "regex" || n.kind == "jsx_element"

end SyntaxNode

namespace TypeScript

open SyntaxNode

/-! ## Where comments are written -/

/-- The nodes of an expression behind the `@` of a decorator in which comments may stand. -/
def expressionNodes (expression : SyntaxNode) : List SyntaxNode :=
  if expression.kind = "call_expression" then
    expression :: expression.children.flatMap fun part =>
      if part.field? = some "arguments" then [part] else part.nodes
  else expression.nodes

/-- The nodes of a parameter in which comments may stand. -/
def parameterNodes (parameter : SyntaxNode) : List SyntaxNode :=
  parameter :: parameter.children.flatMap fun part =>
    if part.kind = "decorator" then part :: (part.namedChildren.take 1).flatMap expressionNodes
    else if part.kind = "type_annotation" ∨ part.kind = "rest_pattern" then [part]
    else if part.field? = some "value" then part.nodes
    else []

/-- The nodes of a parameter list in which comments may stand: not the types, patterns and arguments themselves. -/
def listNodes (list : SyntaxNode) : List SyntaxNode :=
  list :: (list.namedChildren.filter isParameter).flatMap parameterNodes

/-- A comment is written into a parameter list: between its tokens, not in what is read as it is spelled, and not
right behind the sign with which a node begins. -/
structure IsCommentIn (list : SyntaxNode) (e : TextEdit) : Prop where
  comment : IsCommentText e.replacement
  insertion : e.range = .empty e.range.start
  inside : list.start < e.range.start ∧ e.range.start < list.stop
  place : ∀ m ∈ list.nodes, m.start < e.range.start → e.range.start < m.stop →
    m ∈ listNodes list ∧ m.isVerbatim = false
  behind : ∀ parameter ∈ list.namedChildren.filter isParameter, ∀ part ∈ parameter.children, part.isHeaded = true →
    part.start < e.range.start → ∀ first ∈ part.namedChildren.head?, first.start < e.range.start

/-! ## What becomes of the nodes -/

/-- The names of the decorators that mean something. -/
def decoratorNames : List String := ["Optional", "Self", "SkipSelf", "Host", "Inject"]

theorem classify_of_not_mem {name : String} (hname : name ∉ decoratorNames) (arguments : Option (List String)) :
    DecoratorKind.classify name arguments = .unrecognized := by
  simp only [decoratorNames, List.mem_cons, List.not_mem_nil, or_false, not_or] at hname
  obtain ⟨hoptional, hself, hskip, hhost, hinject⟩ := hname
  have hflag : ResolutionOption.ofDecorator? name = none := by
    unfold ResolutionOption.ofDecorator?
    split
    · exact absurd rfl hoptional
    · exact absurd rfl hself
    · exact absurd rfl hskip
    · exact absurd rfl hhost
    · rfl
  match arguments with
  | none => rfl
  | some [] => rw [DecoratorKind.classify, hflag]
  | some (_ :: _) => exact if_neg hinject

section
variable (source source' : List Char)

/-- Comments may have been written into a part of a call, but not into an argument. They leave no name of a
decorator. -/
def CallPartsAgree (n n' : SyntaxNode) : Prop :=
  IsAlike source source' n n' ∨
    (n.field? = some "arguments" ∧ TakesComments (IsAlike source source') n n') ∨
    (n.field? = some "function" ∧ n.HasLabelOf n' ∧ n.text source ∉ decoratorNames ∧ n'.text source' ∉ decoratorNames) ∨
    (n.field? ∉ [some "arguments", some "function"] ∧ n.HasLabelOf n')

/-- Comments may have been written into the expression of a decorator. -/
def ExpressionsAgree (n n' : SyntaxNode) : Prop :=
  IsAlike source source' n n' ∨
    (n.kind = "call_expression" ∧ TakesComments (CallPartsAgree source source') n n') ∨
    -- what is not called is not read
    (n.kind ≠ "call_expression" ∧ n.HasLabelOf n')

/-- Comments may have been written into a part of a parameter. -/
def PartsAgree (n n' : SyntaxNode) : Prop :=
  IsAlike source source' n n' ∨
    (n.kind = "decorator" ∧ n.field? ∉ [some "pattern", some "type"] ∧
      TakesCommentsBehind (ExpressionsAgree source source') n n') ∨
    (n.kind = "type_annotation" ∧ n.field? = some "type" ∧ TakesCommentsBehind (IsAlike source source') n n') ∨
    (n.kind = "rest_pattern" ∧ n.field? = some "pattern" ∧ TakesCommentsBehind (IsAlike source source') n n') ∨
    -- a default value is not read
    (n.kind ∉ ["decorator", "accessibility_modifier"] ∧ n.field? = some "value" ∧ n.HasLabelOf n')

/-- Comments may have been written into a parameter. -/
def ParametersAgree (n n' : SyntaxNode) : Prop :=
  IsAlike source source' n n' ∨ (isParameter n = true ∧ TakesComments (PartsAgree source source') n n')

/-- Comments have been written into a parameter list. -/
def ListsAgree (n n' : SyntaxNode) : Prop := TakesComments (ParametersAgree source source') n n'

end

section
variable (source source' : List Char) (n n' : SyntaxNode)

instance : Decidable (CallPartsAgree source source' n n') :=
  inferInstanceAs (Decidable (IsAlike source source' n n' ∨ (_ ∧ TakesComments (IsAlike source source') n n') ∨
    (_ ∧ n.HasLabelOf n' ∧ _ ∧ _) ∨ (_ ∧ n.HasLabelOf n')))

instance : Decidable (ExpressionsAgree source source' n n') :=
  inferInstanceAs (Decidable (IsAlike source source' n n' ∨ (_ ∧ TakesComments (CallPartsAgree source source') n n') ∨
    (_ ∧ n.HasLabelOf n')))

instance : Decidable (PartsAgree source source' n n') :=
  inferInstanceAs (Decidable (IsAlike source source' n n' ∨
    (_ ∧ _ ∧ TakesCommentsBehind (ExpressionsAgree source source') n n') ∨
    (_ ∧ _ ∧ TakesCommentsBehind (IsAlike source source') n n') ∨
    (_ ∧ _ ∧ TakesCommentsBehind (IsAlike source source') n n') ∨ (_ ∧ _ ∧ n.HasLabelOf n')))

instance : Decidable (ParametersAgree source source' n n') :=
  inferInstanceAs (Decidable (IsAlike source source' n n' ∨ _ ∧ TakesComments (PartsAgree source source') n n'))

instance : Decidable (ListsAgree source source' n n') :=
  inferInstanceAs (Decidable (TakesComments (ParametersAgree source source') n n'))

end

section
variable {source source' : List Char} {n n' list : SyntaxNode}

/-! ## What is read -/

theorem label_of_callPartsAgree (h : CallPartsAgree source source' n n') : n.HasLabelOf n' := by
  rcases h with h | ⟨-, h⟩ | ⟨-, h, -⟩ | ⟨-, h⟩
  · exact h.hasLabelOf
  · exact h.label
  · exact h
  · exact h

theorem label_of_expressionsAgree (h : ExpressionsAgree source source' n n') : n.HasLabelOf n' := by
  rcases h with h | ⟨-, h⟩ | ⟨-, h⟩
  · exact h.hasLabelOf
  · exact h.label
  · exact h

theorem label_of_partsAgree (h : PartsAgree source source' n n') : n.HasLabelOf n' := by
  rcases h with h | ⟨-, -, h⟩ | ⟨-, -, h⟩ | ⟨-, -, h⟩ | ⟨-, -, h⟩
  · exact h.hasLabelOf
  · exact h.label
  · exact h.label
  · exact h.label
  · exact h

theorem argumentTexts_agree (h : TakesComments (IsAlike source source') n n') :
    argumentTexts source n = argumentTexts source' n' := by
  have hnamed : ∀ k : SyntaxNode, (k.namedChildren.filter fun c => !c.isComment) = k.parts.filter SyntaxNode.isNamed := by
    intro k
    rw [namedChildren, SyntaxNode.parts, List.filter_filter, List.filter_filter]
    exact List.filter_congr fun c _ => Bool.and_comm _ _
  rw [argumentTexts, argumentTexts, hnamed, hnamed]
  exact map_eq_of_forall₂ (filter_forall₂ h.parts fun _ _ hm => hm.isNamed) fun _ _ hm => hm.text

/-- The arguments of a call are read as they were. -/
theorem argumentTexts_callAgree (h : TakesComments (CallPartsAgree source source') n n') :
    (n.childIn? "arguments").elim [] (argumentTexts source) =
      (n'.childIn? "arguments").elim [] (argumentTexts source') := by
  rcases cases_of_rel (h.childIn? (fun _ _ hm => (label_of_callPartsAgree hm).field?) "arguments") with
    ⟨hnone, hnone'⟩ | ⟨m, m', hm, hm', hagree⟩
  · rw [hnone, hnone']
    rfl
  · -- only what stands in this field can be a list of arguments
    have hfield := (mem_children_of_childIn? hm).2
    rw [hm, hm']
    rcases hagree with halike | ⟨-, htakes⟩ | ⟨hother, -⟩ | ⟨hother, -⟩
    · exact argumentTexts_alike halike
    · exact argumentTexts_agree htakes
    · simp [hfield] at hother
    · simp [hfield] at hother

/-- What is called is the same, or no decorator that means something. -/
theorem calledText_agree (h : TakesComments (CallPartsAgree source source') n n') :
    (n.childIn? "function").elim "" (fun m => m.text source) = (n'.childIn? "function").elim "" (fun m => m.text source') ∨
      ((n.childIn? "function").elim "" (fun m => m.text source) ∉ decoratorNames ∧
        (n'.childIn? "function").elim "" (fun m => m.text source') ∉ decoratorNames) := by
  rcases cases_of_rel (h.childIn? (fun _ _ hm => (label_of_callPartsAgree hm).field?) "function") with
    ⟨hnone, hnone'⟩ | ⟨m, m', hm, hm', hagree⟩
  · rw [hnone, hnone']
    exact Or.inl rfl
  · have hfield := (mem_children_of_childIn? hm).2
    rw [hm, hm']
    rcases hagree with halike | ⟨hother, -⟩ | ⟨-, -, hnames⟩ | ⟨hother, -⟩
    · exact Or.inl halike.text
    · simp [hfield] at hother
    · exact Or.inr hnames
    · simp [hfield] at hother

/-- Comments in a decorator are not seen in what it means. -/
theorem decoratorKind_agree (h : TakesCommentsBehind (ExpressionsAgree source source') n n') :
    decoratorKind source n = decoratorKind source' n' := by
  unfold decoratorKind
  rcases cases_of_rel h.head?_rel with ⟨hnone, hnone'⟩ | ⟨e, e', he, he', hagree⟩
  · rw [hnone, hnone']
  · simp only [he, he', ← (label_of_expressionsAgree hagree).kind]
    rcases hagree with halike | ⟨hkind, hcall⟩ | ⟨hkind, -⟩
    · -- the expression has no comments in it
      rw [halike.text, elim_eq_of_rel (halike.childIn? "function") fun _ _ hm => hm.text,
        elim_eq_of_rel (halike.childIn? "arguments") fun _ _ hm => argumentTexts_alike hm]
    · -- a call has the same arguments, and what it calls is only looked at for the names of decorators
      rw [if_pos hkind, if_pos hkind, argumentTexts_callAgree hcall]
      rcases calledText_agree hcall with hsame | ⟨hname, hname'⟩
      · rw [hsame]
      · rw [classify_of_not_mem hname, classify_of_not_mem hname']
    · -- anything else means nothing
      rw [if_neg hkind, if_neg hkind]
      rfl

/-- A comment is no part of a pattern, nor the name of a rest parameter. -/
theorem readPattern_agree (h : TakesComments (PartsAgree source source') n n') :
    readPattern source n = readPattern source' n' := by
  unfold readPattern
  rcases cases_of_rel (h.childIn? (fun _ _ hm => (label_of_partsAgree hm).field?) "pattern") with
    ⟨hnone, hnone'⟩ | ⟨m, m', hm, hm', hagree⟩
  · rw [hnone, hnone']
  · have hfield := (mem_children_of_childIn? hm).2
    simp only [hm, hm', ← (label_of_partsAgree hagree).kind]
    rcases hagree with halike | ⟨-, hother, -⟩ | ⟨-, hother, -⟩ | ⟨hkind, -, hrest⟩ | ⟨-, hother, -⟩
    · rw [halike.text, elim_eq_of_rel (head?_rel halike.namedChildren) fun _ _ hcd => hcd.text]
    · simp [hfield] at hother
    · simp [hfield] at hother
    · rw [if_pos hkind, if_pos hkind, elim_eq_of_rel hrest.head?_rel fun _ _ hcd => hcd.text]
    · simp [hfield] at hother

/-- A comment that does not come first behind the colon is not taken for the type. -/
theorem readType_agree (h : TakesComments (PartsAgree source source') n n') : readType source n = readType source' n' := by
  unfold readType
  rcases cases_of_rel (h.childIn? (fun _ _ hm => (label_of_partsAgree hm).field?) "type") with
    ⟨hnone, hnone'⟩ | ⟨m, m', hm, hm', hagree⟩
  · rw [hnone, hnone']
    rfl
  · have hfield := (mem_children_of_childIn? hm).2
    rw [hm, hm']
    rcases hagree with halike | ⟨-, hother, -⟩ | ⟨-, -, htype⟩ | ⟨-, hother, -⟩ | ⟨-, hother, -⟩
    · exact map_eq_of_rel (head?_rel halike.namedChildren) fun _ _ hcd => hcd.text
    · simp [hfield] at hother
    · exact map_eq_of_rel htype.head?_rel fun _ _ hcd => hcd.text
    · simp [hfield] at hother
    · simp [hfield] at hother

/-- A modifier of the scope has no comments in it. -/
theorem text_modifier_agree (h : PartsAgree source source' n n') (hkind : n.kind = "accessibility_modifier") :
    n.text source = n'.text source' := by
  rcases h with halike | ⟨hother, -⟩ | ⟨hother, -⟩ | ⟨hother, -⟩ | ⟨hother, -⟩
  · exact halike.text
  · exact absurd (hkind.symm.trans hother) (by decide)
  · exact absurd (hkind.symm.trans hother) (by decide)
  · exact absurd (hkind.symm.trans hother) (by decide)
  · simp [hkind] at hother

theorem decoratorKind_partsAgree (h : PartsAgree source source' n n') (hkind : n.kind = "decorator") :
    decoratorKind source n = decoratorKind source' n' := by
  rcases h with halike | ⟨-, -, h⟩ | ⟨hother, -⟩ | ⟨hother, -⟩ | ⟨hother, -⟩
  · exact decoratorKind_alike halike
  · exact decoratorKind_agree h
  · exact absurd (hkind.symm.trans hother) (by decide)
  · exact absurd (hkind.symm.trans hother) (by decide)
  · simp [hkind] at hother

/-- Comments in a parameter change nothing that is read of it but the texts of its decorators. -/
theorem readParameter_agree (h : TakesComments (PartsAgree source source') n n') :
    (readParameter source n).ReadsAs (readParameter source' n') := by
  have hkinds : ∀ m m', PartsAgree source source' m m' → m.kind = m'.kind := fun _ _ hm => (label_of_partsAgree hm).kind
  have hpattern := readPattern_agree h
  have hscopes : (n.children.filter (·.kind == "accessibility_modifier")).map (SyntaxNode.text · source) =
      (n'.children.filter (·.kind == "accessibility_modifier")).map (SyntaxNode.text · source') :=
    h.map_filter_kind hkinds (by decide) fun _ _ hm hkind => text_modifier_agree hm hkind
  have hdecorators : (n.children.filter (·.kind == "decorator")).map (decoratorKind source) =
      (n'.children.filter (·.kind == "decorator")).map (decoratorKind source') :=
    h.map_filter_kind hkinds (by decide) fun _ _ hm hkind => decoratorKind_partsAgree hm hkind
  rw [readParameter_eq, readParameter_eq]
  exact {
    name := congrArg Prod.fst hpattern
    binding := congrArg Prod.snd hpattern
    declaredType := readType_agree h
    isReadonly := h.any_kind hkinds (by decide)
    isOverride := h.any_kind hkinds (by decide)
    scope := by
      have hfold := congrArg (List.foldl (fun scope text => (Scope.ofKeyword? text).or scope) none) hscopes
      rwa [List.foldl_map, List.foldl_map] at hfold
    kinds := by rwa [List.map_map, List.map_map] }

theorem readsAs_of_isAlike {p q : Parameter} (h : p.IsAlike q) : p.ReadsAs q := by
  cases p
  cases q
  cases h
  exact ⟨rfl, rfl, rfl, rfl, rfl, rfl, rfl⟩

/-- The parameters of a list with comments are read alike. -/
theorem parameters_agree (h : ListsAgree source source' n n') : List.Forall₂ Parameter.ReadsAs
    ((n.namedChildren.filter isParameter).map (readParameter source))
    ((n'.namedChildren.filter isParameter).map (readParameter source')) := by
  -- a parameter is no comment
  have hparts : ∀ k : SyntaxNode, k.namedChildren.filter isParameter =
      k.parts.filter fun c => isParameter c && c.isNamed := by
    intro k
    rw [namedChildren, List.filter_filter]
    refine (filter_parts (fun c hc => ?_) k).symm
    rw [isParameter] at hc
    cases hcomment : c.isComment with
    | false => rfl
    | true =>
      rw [isComment, beq_iff_eq] at hcomment
      simp [hcomment] at hc
  have hlabel : ∀ m m', ParametersAgree source source' m m' → m.HasLabelOf m' := by
    rintro m m' (halike | ⟨-, hagree⟩)
    · exact halike.hasLabelOf
    · exact hagree.label
  rw [hparts, hparts, List.forall₂_map_left_iff, List.forall₂_map_right_iff]
  refine (filter_forall₂ h.parts fun m m' hm => ?_).imp fun m m' hm => ?_
  · rw [isParameter, isParameter, (hlabel m m' hm).kind, (hlabel m m' hm).isNamed]
  · rcases hm with halike | ⟨-, hagree⟩
    · exact readsAs_of_isAlike (readParameter_alike halike)
    · exact readParameter_agree hagree

/-! ## The class around the list -/

/-- The list of the parameters of a class, if it has a constructor. -/
def parameterList? (source : List Char) (n : SyntaxNode) : Option SyntaxNode :=
  (classParts? n).bind fun parts =>
    ((members parts.2).find? (isConstructor source)).bind fun method => method.childIn? "parameters"

/-- A child of a body that is its constructor, if it comes first. -/
def isConstructorMember (source : List Char) (c : SyntaxNode) : Bool :=
  c.isNamed && (!c.isComment && isConstructor source c)

theorem find?_members (source : List Char) (body : SyntaxNode) :
    (members body).find? (isConstructor source) = body.children.find? (isConstructorMember source) := by
  rw [members, namedChildren, List.find?_filter, List.find?_filter]
  exact List.find?_congr fun c _ => Bool.eq_iff_iff.mpr (by simp [isConstructorMember])

theorem isConstructorMember_alike (h : IsAlike source source' n n') :
    isConstructorMember source n = isConstructorMember source' n' := by
  rw [isConstructorMember, isConstructorMember, h.isNamed, h.isComment, isConstructor, isConstructor, h.kind,
    isCalledConstructor_alike h]

/-- A method whose parameters are replaced is called as before. -/
theorem isConstructorMember_replaced {left right : List SyntaxNode} {list' : SyntaxNode}
    (h : ReplacesChild source source' left list list' right n n') (hlabel : list.HasLabelOf list')
    (hfield : list.field? = some "parameters") : isConstructorMember source n = isConstructorMember source' n' := by
  have hcalled : isCalledConstructor source n = isCalledConstructor source' n' :=
    isCalledConstructor_of_rel (h.childIn?_rel "name" hlabel (by simp [hfield]))
  rw [isConstructorMember, isConstructorMember, h.label.isNamed, isComment, isComment, isConstructor, isConstructor,
    h.label.kind, hcalled]

/-- The constructor of a body is found with its list of parameters. -/
theorem findConstructor?_of_find? {body method : SyntaxNode}
    (hmethod : (members body).find? (isConstructor source) = some method) (hlist : method.childIn? "parameters" = some list) :
    (findConstructor? source body).map Constructor.parameters =
      some ((list.namedChildren.filter isParameter).map (readParameter source)) := by
  simp [findConstructor?, hmethod, hlist]

/-- The class around a list of parameters is read with its parameters. -/
theorem readClass?_changed {file : Path} {c : ClassDecl} (hplaced : n.ArePlaced source)
    (h : ChangedAt source source' (fun m m' => m = list ∧ ListsAgree source source' m m') n n')
    (hread : readClass? file source n = some c) (hlist : parameterList? source n = some list) :
    ∃ c', readClass? file source' n' = some c' ∧ c'.name = c.name ∧
      List.Forall₂ Parameter.ReadsAs c.parameters c'.parameters := by
  have hR : ∀ m m', (m = list ∧ ListsAgree source source' m m') → m = list := fun _ _ h => h.1
  obtain ⟨⟨name, body⟩, hparts, hlist⟩ := Option.bind_eq_some_iff.mp hlist
  obtain ⟨method, hmethod, hlist⟩ := Option.bind_eq_some_iff.mp hlist
  obtain ⟨hkind, hname, hbody, hkinds⟩ := classParts?_eq_some.mp hparts
  have hfound := find?_members source body ▸ hmethod
  have hmemBody := (mem_children_of_childIn? hbody).1
  have hmemMethod := List.mem_of_find?_eq_some hfound
  have hmemList := (mem_children_of_childIn? hlist).1
  have hplacedBody := hplaced.child hmemBody
  have hplacedMethod := hplacedBody.child hmemMethod
  -- down from the class to the list
  have hbelow := mem_nodes_of_mem_children hmemList
  obtain ⟨left, right, body', hbodies, hchanged⟩ :=
    h.toChild hplaced hR hmemBody (mem_nodes_trans hbelow (mem_nodes_of_mem_children hmemMethod))
  obtain ⟨left₂, right₂, method', hmethods, hchanged⟩ := hchanged.toChild hplacedBody hR hmemMethod hbelow
  obtain ⟨left₃, right₃, list', hlists, hchanged⟩ :=
    hchanged.toChild hplacedMethod hR hmemList (self_mem_nodes list)
  have hagree : ListsAgree source source' list list' := by
    cases hchanged with
    | here h => exact h.2
    | inChild hreplaces hchild =>
      obtain ⟨k, hk, _, _, rfl, -⟩ := hchild.exists_changed
      exact absurd hk (not_mem_nodes_of_mem_children hreplaces.mem)
  -- and up again with what is found there
  have hlist' : method'.childIn? "parameters" = some list' :=
    hlists.childIn?_eq_some hplacedMethod.isPlaced hagree.label hlist
  have hmethod' : (members body').find? (isConstructor source') = some method' := by
    rw [find?_members]
    refine hmethods.find?_eq_some hplacedBody.isPlaced (fun _ _ hm => isConstructorMember_alike hm) hfound ?_
    rw [← isConstructorMember_replaced hlists hagree.label (mem_children_of_childIn? hlist).2]
    exact List.find?_some hfound
  have hbody' : n'.childIn? "body" = some body' := hbodies.childIn?_eq_some hplaced.isPlaced hmethods.label hbody
  -- the name of the class stands beside its body
  obtain ⟨hnone, -⟩ | ⟨name₁, name', hname₁, hname', halike⟩ := cases_of_rel
    (hbodies.childIn?_rel "name" hmethods.label (by simp [(mem_children_of_childIn? hbody).2]))
  · rw [hname] at hnone
    cases hnone
  obtain rfl : name = name₁ := Option.some.inj (hname.symm.trans hname₁)
  have hparts' : classParts? n' = some (name', body') :=
    classParts?_eq_some.mpr ⟨hbodies.label.kind ▸ hkind, hname', hbody', halike.kind ▸ hkinds.1,
      hmethods.label.kind ▸ hkinds.2⟩
  rw [readClass?, hparts, Option.map_some, Option.some.injEq] at hread
  subst hread
  rw [readClass?, hparts']
  refine ⟨_, rfl, halike.text.symm, ?_⟩
  -- both constructors are found with their lists
  obtain ⟨k, hk, hparameters⟩ := Option.map_eq_some_iff.mp (findConstructor?_of_find? hmethod hlist)
  obtain ⟨k', hk', hparameters'⟩ := Option.map_eq_some_iff.mp (findConstructor?_of_find? hmethod' hlist')
  simp only [ClassDecl.parameters, hk, hk', hparameters, hparameters']
  exact parameters_agree hagree

end

end TypeScript

open SyntaxNode TypeScript

/-- What a parser makes of comments that are written into a parameter list: it finds no errors, each comment becomes a
child of the node in whose tokens it stands, and all else reads as it did. -/
def Parser.AttachesComments (parse : Parser) (grammar : Grammar) (text after : String) (list : SyntaxNode)
    (es : List TextEdit) : Prop :=
  (∀ e ∈ es, IsCommentIn list e) → applyEdits text es = .ok after → (parse grammar after).hasError = false ∧
    ChangedAt text.toList after.toList (fun n n' => n = list ∧ ListsAgree text.toList after.toList n n')
      (parse grammar text).root (parse grammar after).root

/-- **Comments among parameters.** Take a parser whose nodes stand where they say, and a class that is read without
errors. Comments are written into the list of its constructor's parameters: anywhere between the tokens, but not into
the types, patterns and arguments themselves, and not right behind the colon of a type, the `@` of a decorator or the
dots of a rest parameter. If the parser takes them for comments, the class is read again with the same parameters in
the same order: their names, bindings, types and modifiers are the same, and their decorators mean the same. -/
theorem parameters_withComments {parse : Parser} (hplaces : parse.PlacesNodes) {path relativePath : Path}
    {text after : String} (herrors : (readUnit path relativePath text parse).hasSyntaxErrors = false)
    {n list : SyntaxNode} (hn : n ∈ (parse (grammarOf path) text).root.nodes) {c : ClassDecl}
    (hread : readClass? path text.toList n = some c) (hlist : parameterList? text.toList n = some list)
    {es : List TextEdit} (hcomments : ∀ e ∈ es, IsCommentIn list e) (happly : applyEdits text es = .ok after)
    (hattaches : parse.AttachesComments (grammarOf path) text after list es) :
    (readUnit path relativePath after parse).hasSyntaxErrors = false ∧
      ∃ c' ∈ (readUnit path relativePath after parse).classes, c'.name = c.name ∧
        List.Forall₂ Parameter.ReadsAs c.parameters c'.parameters := by
  have hplaced := hplaces (grammarOf path) text herrors
  obtain ⟨herrors', hchanged⟩ := hattaches hcomments happly
  -- the list stands below its class
  have hbelow : list ∈ n.nodes := by
    obtain ⟨⟨name, body⟩, hparts, hlist⟩ := Option.bind_eq_some_iff.mp hlist
    obtain ⟨method, hmethod, hlist⟩ := Option.bind_eq_some_iff.mp hlist
    have hbody := (isClassOf_of_classParts? hparts).mem_body
    have hmember := (mem_members_iff.mp (List.mem_of_find?_eq_some hmethod)).1
    exact mem_nodes_trans (mem_nodes_trans (mem_nodes_of_mem_children (mem_children_of_childIn? hlist).1)
      (mem_nodes_of_mem_children hmember)) (mem_nodes_of_mem_children hbody)
  obtain ⟨n', hn', hclass⟩ := hchanged.around hplaced (fun _ _ h => h.1) hn hbelow
  obtain ⟨c', hread', hname, hparameters⟩ := readClass?_changed (hplaced.of_mem hn) hclass hread hlist
  exact ⟨herrors', c', classes_readTree_perm.mem_iff.mpr (List.mem_filterMap.mpr ⟨n', hn', hread'⟩), hname, hparameters⟩

/-! ## Comments between the tokens -/

/-- The tree of a class with a list of parameters, which begins at the offset 23. -/
def classAround (list : SyntaxNode) : SyntaxNode :=
  .rule "program" none 0 (list.stop + 6) [
    .rule "class_declaration" none 0 (list.stop + 5) [
      .token "class" 0, .rule "type_identifier" (some "name") 6 7 [],
      .rule "class_body" (some "body") 8 (list.stop + 5) [
        .token "\x7b" 8,
        .rule "method_definition" none 12 (list.stop + 3) [
          .rule "property_identifier" (some "name") 12 23 [],
          list,
          .rule "statement_block" (some "body") (list.stop + 1) (list.stop + 3) [
            .token "\x7b" (list.stop + 1), .token "\x7d" (list.stop + 2)]],
        .token "\x7d" (list.stop + 4)]]]

/-- A parameter list with a decorator, a modifier and a default value. -/
def plainList : SyntaxNode :=
  .rule "formal_parameters" (some "parameters") 23 55 [
    .token "(" 23,
    .rule "required_parameter" none 24 47 [
      .rule "decorator" (some "decorator") 24 34 [
        .token "@" 24,
        .rule "call_expression" none 25 34 [
          .rule "identifier" (some "function") 25 31 [],
          .rule "arguments" (some "arguments") 31 34 [
            .token "(" 31, .rule "identifier" none 32 33 [], .token ")" 33]]],
      .rule "accessibility_modifier" none 35 42 [.token "private" 35],
      .rule "identifier" (some "pattern") 43 44 [],
      .rule "type_annotation" (some "type") 44 47 [.token ":" 44, .rule "type_identifier" none 46 47 []]],
    .token "," 47,
    .rule "required_parameter" none 49 54 [
      .rule "identifier" (some "pattern") 49 50 [], .token "=" 51, .rule "number" (some "value") 53 54 []],
    .token ")" 54]

def plainClass : String := "class A \x7b\n  constructor(@Inject(T) private a: A, b = 1) \x7b\x7d\n\x7d\n"

/-- That list with comments in front of the parameters, in the arguments and behind a modifier. -/
def commentedList : SyntaxNode :=
  .rule "formal_parameters" (some "parameters") 23 81 [
    .token "(" 23, .rule "comment" none 24 31 [],
    .rule "required_parameter" none 31 68 [
      .rule "decorator" (some "decorator") 31 48 [
        .token "@" 31,
        .rule "call_expression" none 32 48 [
          .rule "identifier" (some "function") 32 38 [],
          .rule "arguments" (some "arguments") 38 48 [
            .token "(" 38, .rule "comment" none 39 46 [], .rule "identifier" none 46 47 [], .token ")" 47]]],
      .rule "accessibility_modifier" none 49 56 [.token "private" 49], .rule "comment" none 57 64 [],
      .rule "identifier" (some "pattern") 64 65 [],
      .rule "type_annotation" (some "type") 65 68 [.token ":" 65, .rule "type_identifier" none 67 68 []]],
    .token "," 68, .rule "comment" none 69 73 [],
    .rule "required_parameter" none 75 80 [
      .rule "identifier" (some "pattern") 75 76 [], .token "=" 77, .rule "number" (some "value") 79 80 []],
    .token ")" 80]

def commentedClass : String :=
  "class A \x7b\n  constructor(/* 1 */@Inject(/* 2 */T) private /* 3 */a: A,// 4\n b = 1) \x7b\x7d\n\x7d\n"

/-- The comments, where they are written. -/
def fourComments : List TextEdit :=
  [.insert 24 "/* 1 */", .insert 32 "/* 2 */", .insert 43 "/* 3 */", .insert 48 "// 4\n"]

theorem fourComments_areComments : ∀ e ∈ fourComments, IsCommentIn plainList e := by
  simp only [fourComments, List.forall_mem_cons]
  refine ⟨⟨Or.inl ⟨" 1 ".toList, rfl, by decide⟩, rfl, by decide, by decide +kernel, by decide +kernel⟩,
    ⟨Or.inl ⟨" 2 ".toList, rfl, by decide⟩, rfl, by decide, by decide +kernel, by decide +kernel⟩,
    ⟨Or.inl ⟨" 3 ".toList, rfl, by decide⟩, rfl, by decide, by decide +kernel, by decide +kernel⟩,
    ⟨Or.inr ⟨[' ', '4'], Or.inl rfl, by simp⟩, rfl, by decide, by decide +kernel, by decide +kernel⟩, ?_⟩
  exact List.forall_mem_nil _

theorem applyEdits_fourComments : applyEdits plainClass fourComments = .ok commentedClass := by
  have hsorted : fourComments.mergeSort TextEdit.le = fourComments := List.mergeSort_of_pairwise (by decide)
  have happly : applyOrdered plainClass.toList 0 none fourComments = .ok commentedClass.toList := by
    rw [show plainClass.toList = _ from String.toList_ofList, show commentedClass.toList = _ from String.toList_ofList]
    decide +kernel
  rw [applyEdits, hsorted, happly, Except.map, String.ofList_toList]

/-- A parser that knows both classes. -/
def plainParser : Parser := .ofTable [(plainClass, classAround plainList), (commentedClass, classAround commentedList)]

theorem plainParser_eq (grammar : Grammar) :
    plainParser grammar plainClass = ⟨classAround plainList, false⟩ ∧
      plainParser grammar commentedClass = ⟨classAround commentedList, false⟩ :=
  ⟨Parser.ofTable_cons_self ..,
    (Parser.ofTable_cons_of_ne (by decide +kernel) ..).trans (Parser.ofTable_cons_self ..)⟩

/-- The trees of both classes, and what is read of the first one. -/
theorem plainParser_spec : (classAround plainList).ArePlaced plainClass.toList ∧
    (classAround commentedList).ArePlaced commentedClass.toList ∧
    ∃ n ∈ (classAround plainList).nodes, parameterList? plainClass.toList n = some plainList ∧
      (readClass? ⟨"a.ts"⟩ plainClass.toList n).map (fun c => c.parameters.map fun q =>
          (q.name, q.declaredType, q.decorators.map Decorator.kind)) =
        some [("a", some "A", [.token "T"]), ("b", none, [])] := by
  rw [show plainClass.toList = _ from String.toList_ofList, show commentedClass.toList = _ from String.toList_ofList]
  decide +kernel

theorem plainParser_placesNodes : plainParser.PlacesNodes := by
  obtain ⟨hplain, hcommented, -⟩ := plainParser_spec
  exact Parser.ofTable_placesNodes (List.forall_mem_cons.mpr ⟨hplain, List.forall_mem_singleton.mpr hcommented⟩)

theorem plainParser_attaches (grammar : Grammar) :
    plainParser.AttachesComments grammar plainClass commentedClass plainList fourComments := by
  intro _ _
  obtain ⟨hplain, hcommented⟩ := plainParser_eq grammar
  rw [hplain, hcommented]
  refine ⟨rfl, ?_⟩
  rw [show plainClass.toList = _ from String.toList_ofList, show commentedClass.toList = _ from String.toList_ofList]
  -- from the root to the list
  refine .inChild (replacesChild_of_getElem? (k := 0) ⟨rfl, rfl, rfl⟩ rfl rfl (by decide +kernel) (by decide +kernel)) ?_
  refine .inChild (replacesChild_of_getElem? (k := 2) ⟨rfl, rfl, rfl⟩ rfl rfl (by decide +kernel) (by decide +kernel)) ?_
  refine .inChild (replacesChild_of_getElem? (k := 1) ⟨rfl, rfl, rfl⟩ rfl rfl (by decide +kernel) (by decide +kernel)) ?_
  refine .inChild (replacesChild_of_getElem? (k := 1) ⟨rfl, rfl, rfl⟩ rfl rfl (by decide +kernel) (by decide +kernel)) ?_
  exact .here ⟨rfl, by decide +kernel⟩

/-- With four comments in its list the class has the parameters that it had. -/
theorem parameters_withComments_fourComments :
    let parse := plainParser
    let u := readUnit ⟨"a.ts"⟩ ⟨"a.ts"⟩ plainClass parse
    let u' := readUnit ⟨"a.ts"⟩ ⟨"a.ts"⟩ commentedClass parse
    parse.PlacesNodes ∧ u.hasSyntaxErrors = false ∧ (∀ e ∈ fourComments, IsCommentIn plainList e) ∧
      applyEdits plainClass fourComments = .ok commentedClass ∧
      parse.AttachesComments (grammarOf ⟨"a.ts"⟩) plainClass commentedClass plainList fourComments ∧
      ∃ n ∈ (parse (grammarOf ⟨"a.ts"⟩) plainClass).root.nodes, ∃ c,
        readClass? ⟨"a.ts"⟩ plainClass.toList n = some c ∧ parameterList? plainClass.toList n = some plainList ∧
        c.parameters.map (fun q => (q.name, q.declaredType, q.decorators.map Decorator.kind)) =
          [("a", some "A", [.token "T"]), ("b", none, [])] ∧
        u'.hasSyntaxErrors = false ∧
        ∃ c' ∈ u'.classes, c'.name = c.name ∧ List.Forall₂ Parameter.ReadsAs c.parameters c'.parameters := by
  intro parse u u'
  have htree : parse (grammarOf ⟨"a.ts"⟩) plainClass = ⟨classAround plainList, false⟩ := (plainParser_eq _).1
  have herrors : u.hasSyntaxErrors = false := congrArg SyntaxTree.hasError htree
  have hattaches := plainParser_attaches (grammarOf ⟨"a.ts"⟩)
  obtain ⟨-, -, n, hn, hlist, hread⟩ := plainParser_spec
  obtain ⟨c, hread, hparameters⟩ := Option.map_eq_some_iff.mp hread
  have hn : n ∈ (parse (grammarOf ⟨"a.ts"⟩) plainClass).root.nodes := htree ▸ hn
  exact ⟨plainParser_placesNodes, herrors, fourComments_areComments, applyEdits_fourComments, hattaches, n, hn, c, hread,
    hlist, hparameters, parameters_withComments plainParser_placesNodes herrors hn hread hlist fourComments_areComments
      applyEdits_fourComments hattaches⟩

/-! ## A comment behind a colon -/

def typedList : SyntaxNode :=
  .rule "formal_parameters" (some "parameters") 23 29 [
    .token "(" 23,
    .rule "required_parameter" none 24 28 [
      .rule "identifier" (some "pattern") 24 25 [],
      .rule "type_annotation" (some "type") 25 28 [.token ":" 25, .rule "type_identifier" none 27 28 []]],
    .token ")" 28]

def typedClass : String := "class A \x7b\n  constructor(a: A) \x7b\x7d\n\x7d\n"

/-- That list with a comment in front of the type. -/
def commentedTypeList : SyntaxNode :=
  .rule "formal_parameters" (some "parameters") 23 36 [
    .token "(" 23,
    .rule "required_parameter" none 24 35 [
      .rule "identifier" (some "pattern") 24 25 [],
      .rule "type_annotation" (some "type") 25 35 [
        .token ":" 25, .rule "comment" none 27 34 [], .rule "type_identifier" none 34 35 []]],
    .token ")" 35]

def commentedTypeClass : String := "class A \x7b\n  constructor(a: /* c */A) \x7b\x7d\n\x7d\n"

/-- The comment behind the colon is taken for the declared type. -/
theorem comment_taken_for_type :
    let parse := Parser.ofTable [(typedClass, classAround typedList), (commentedTypeClass, classAround commentedTypeList)]
    let u := readUnit ⟨"a.ts"⟩ ⟨"a.ts"⟩ typedClass parse
    let u' := readUnit ⟨"a.ts"⟩ ⟨"a.ts"⟩ commentedTypeClass parse
    parse.PlacesNodes ∧ parse.FollowsGrammar ∧ u.hasSyntaxErrors = false ∧ u'.hasSyntaxErrors = false ∧
      IsCommentText "/* c */" ∧ applyEdits typedClass [.insert 27 "/* c */"] = .ok commentedTypeClass ∧
      u.classes.map (fun c => c.parameters.map Parameter.declaredType) = [[some "A"]] ∧
      u'.classes.map (fun c => c.parameters.map Parameter.declaredType) = [[some "/* c */"]] :=
  ⟨Parser.ofTable_placesNodes (by decide +kernel), Parser.ofTable_followsGrammar (by decide +kernel), by decide +kernel,
    by decide +kernel, Or.inl ⟨" c ".toList, rfl, by decide⟩, by decide +kernel, by decide +kernel, by decide +kernel⟩

end FieldInjection
