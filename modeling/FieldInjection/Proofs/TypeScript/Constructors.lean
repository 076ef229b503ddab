import FieldInjection.Proofs.TypeScript.Offsets

/-!
# Which member is the constructor

The constructor that is found in the body of a class is the first method with a body among its members that is called
`constructor`, and its overloads are the signatures of that name (`findConstructor?_account`). Fields of that name and
the members of classes inside other members are never taken. But nobody asks for the modifier `static`, so a static
method of that name is (`static_method_taken`).
-/

namespace FieldInjection.TypeScript

open SyntaxNode

/-- A member that belongs to the class itself. -/
def isStatic (member : SyntaxNode) : Bool := member.children.any (·.isToken "static")

/-- Which constructor is found in the body of a class. -/
structure ConstructorAccount (source : List Char) (body : SyntaxNode) (found : Option Constructor) : Prop where
  /-- Wherever a method stands among the members that has a body and is called so, one is found. -/
  isSome_iff : found.isSome = true ↔
    ∃ m ∈ members body, m.kind = "method_definition" ∧ isCalledConstructor source m = true
  /-- It is the first such method, with its parameters and the number of signatures of that name. -/
  first : ∀ k, found = some k → ∃ before method behind list, members body = before ++ method :: behind ∧
    (∀ m ∈ before, m.kind = "method_definition" → isCalledConstructor source m = false) ∧
      method.kind = "method_definition" ∧ isCalledConstructor source method = true ∧
        (method.childIn? "body").isSome = true ∧ method.childIn? "parameters" = some list ∧
          k = ⟨(list.namedChildren.filter isParameter).map (readParameter source), innerRange list,
            (members body).countP (isConstructorSignature source)⟩ ∧
          -- no member of a class that stands in the body is taken
          ∀ nested ∈ body.nodes, nested.kind = "class_body" → nested ≠ body → method ∉ nested.nodes
  /-- If no static member is called so, the method is none, and no signature of a static one is counted. -/
  own : (∀ m ∈ members body, isCalledConstructor source m = true → isStatic m = false) → ∀ k, found = some k →
    (∃ method ∈ members body, method.kind = "method_definition" ∧ isCalledConstructor source method = true ∧
      isStatic method = false ∧ ∃ list, method.childIn? "parameters" = some list ∧ k.parameterList = innerRange list) ∧
      k.overloads = (members body).countP fun m => isConstructorSignature source m && !isStatic m

section
variable {source : List Char} {n body method : SyntaxNode} {file : Path} {c : ClassDecl} {k : Constructor}

theorem isConstructor_iff {m : SyntaxNode} :
    isConstructor source m = true ↔ m.kind = "method_definition" ∧ isCalledConstructor source m = true := by
  rw [isConstructor, Bool.and_eq_true, beq_iff_eq]

/-- A member of a class is no member of another class in its body. -/
theorem not_mem_nested (h : body.ArePlaced source) (hmember : method ∈ members body)
    (hmethod : method.kind = "method_definition") {nested : SyntaxNode} (hnested : nested ∈ body.nodes)
    (hkind : nested.kind = "class_body") (hne : nested ≠ body) : method ∉ nested.nodes := by
  intro hbelow
  have hmem := (mem_members_iff.mp hmember).1
  have hnonempty := h.isPlaced.nonempty method hmem
  have hwithin := (h.of_mem hnested).within hbelow
  have hin : nested ∈ method.nodes := h.mem_nodes_of_overlap hmem hnested hne ⟨by omega, by omega⟩
  rw [eq_of_mem_nodes hbelow hin, hkind] at hmethod
  exact absurd hmethod (by decide)

/-- What is found is the first method that is called `constructor`. -/
theorem exists_of_findConstructor? (hk : findConstructor? source body = some k) :
    ∃ before method behind list, members body = before ++ method :: behind ∧
      (∀ m ∈ before, isConstructor source m = false) ∧ isConstructor source method = true ∧
        method.childIn? "parameters" = some list ∧
          k = ⟨(list.namedChildren.filter isParameter).map (readParameter source), innerRange list,
            (members body).countP (isConstructorSignature source)⟩ := by
  unfold findConstructor? at hk
  obtain ⟨method, hmethod, hk⟩ := Option.bind_eq_some_iff.mp hk
  obtain ⟨list, hlist, rfl⟩ := Option.map_eq_some_iff.mp hk
  obtain ⟨hfound, before, behind, hmembers, hbefore⟩ := List.find?_eq_some_iff_append.mp hmethod
  refine ⟨before, method, behind, list, hmembers, fun m hm => by simpa using hbefore m hm, hfound, hlist, ?_⟩
  rw [List.countP_eq_length_filter]

theorem findConstructor?_constructorAccount (h : body.ArePlaced source) (hshaped : body.AreShaped) :
    ConstructorAccount source body (findConstructor? source body) where
  isSome_iff := by
    constructor
    · intro hsome
      obtain ⟨k, hk⟩ := Option.isSome_iff_exists.mp hsome
      obtain ⟨before, method, behind, list, hmembers, -, hmethod, -⟩ := exists_of_findConstructor? hk
      exact ⟨method, by simp [hmembers], isConstructor_iff.mp hmethod⟩
    · rintro ⟨m, hm, hconstructor⟩
      have hfind : ((members body).find? (isConstructor source)).isSome = true :=
        List.find?_isSome.mpr ⟨m, hm, isConstructor_iff.mpr hconstructor⟩
      obtain ⟨method, hmethod⟩ := Option.isSome_iff_exists.mp hfind
      -- a method with a body has parameters
      have hmem := (mem_members_iff.mp (List.mem_of_find?_eq_some hmethod)).1
      have hkind := (isConstructor_iff.mp (List.find?_some hmethod)).1
      obtain ⟨list, hlist, -⟩ := (hshaped.child hmem method (self_mem_nodes _)).exists_parameters hkind
      simp [findConstructor?, hmethod, hlist]
  first := by
    intro k hk
    obtain ⟨before, method, behind, list, hmembers, hbefore, hmethod, hlist, hread⟩ := exists_of_findConstructor? hk
    obtain ⟨hkind, hcalled⟩ := isConstructor_iff.mp hmethod
    have hmember : method ∈ members body := by simp [hmembers]
    have hmem := (mem_members_iff.mp hmember).1
    refine ⟨before, method, behind, list, hmembers, ?_, hkind, hcalled,
      ((hshaped.child hmem method (self_mem_nodes _)).methodDefinition hkind).2, hlist, hread, ?_⟩
    · intro m hm hkind
      have hother := hbefore m hm
      rw [isConstructor, beq_iff_eq.mpr hkind, Bool.true_and] at hother
      exact hother
    · intro nested hnested hbody hne
      exact not_mem_nested h hmember hkind hnested hbody hne
  own := by
    intro hown k hk
    obtain ⟨before, method, behind, list, hmembers, -, hmethod, hlist, rfl⟩ := exists_of_findConstructor? hk
    obtain ⟨hkind, hcalled⟩ := isConstructor_iff.mp hmethod
    have hmember : method ∈ members body := by simp [hmembers]
    refine ⟨⟨method, hmember, hkind, hcalled, hown method hmember hcalled, list, hlist, rfl⟩, ?_⟩
    refine List.countP_congr fun m hm => ?_
    rw [Bool.and_eq_true, Bool.not_eq_true']
    refine ⟨fun hsignature => ⟨hsignature, hown m hm ?_⟩, And.left⟩
    rw [isConstructorSignature, Bool.and_eq_true] at hsignature
    exact hsignature.2

end

/-- **Which constructor a class has.** Take a parser whose nodes stand where they say and have the shapes of the
grammar. The constructor of a class that is read without errors is the first member of its body that is a method with
a body and called `constructor`; it is found wherever it stands, and its overloads are the signatures of that name in
the same body. Fields of that name and the members of other classes in the body are never taken. If no static member
is called so, the method is not static, and no signature that is counted is. -/
theorem findConstructor?_account {parse : Parser} (hplaces : parse.PlacesNodes) (hgrammar : parse.FollowsGrammar)
    {path relativePath : Path} {text : String}
    (herrors : (readUnit path relativePath text parse).hasSyntaxErrors = false) {c : ClassDecl}
    (hc : c ∈ (readUnit path relativePath text parse).classes) :
    ∃ n ∈ (parse (grammarOf path) text).root.nodes, readClass? path text.toList n = some c ∧
      ∃ body ∈ n.children, body.kind = "class_body" ∧ ConstructorAccount text.toList body c.constructor? := by
  have h := hplaces (grammarOf path) text herrors
  have hshaped := hgrammar (grammarOf path) text herrors
  obtain ⟨n, hn, hread⟩ := mem_classes_readTree hc
  obtain ⟨name, body, hclass, rfl⟩ := readClass?_eq_some hread
  have hbelow := mem_nodes_trans (mem_nodes_of_mem_children hclass.mem_body) hn
  exact ⟨n, hn, hread, body, hclass.mem_body, hclass.kind_body,
    findConstructor?_constructorAccount (h.of_mem hbelow) (hshaped.of_mem hbelow)⟩

/-- A class with a static field, a signature, its constructor, and another class in a method behind it. -/
def manyMembers : String :=
  "class A \x7b\n  static x = 1;\n  constructor(a: A);\n  constructor(b: B) \x7b\x7d\n" ++
    "  m() \x7b class B \x7b constructor(c: C) \x7b\x7d \x7d \x7d\n\x7d\n"

def manyMembersTree : SyntaxNode :=
  .rule "program" none 0 115 [
    .rule "class_declaration" none 0 114 [
      .token "class" 0, .rule "type_identifier" (some "name") 6 7 [],
      .rule "class_body" (some "body") 8 114 [
        .token "\x7b" 8,
        .rule "public_field_definition" none 12 24 [
          .token "static" 12, .rule "property_identifier" (some "name") 19 20 [], .token "=" 21,
          .rule "number" (some "value") 23 24 []],
        .token ";" 24,
        .rule "method_signature" none 28 45 [
          .rule "property_identifier" (some "name") 28 39 [],
          .rule "formal_parameters" (some "parameters") 39 45 [
            .token "(" 39,
            .rule "required_parameter" none 40 44 [
              .rule "identifier" (some "pattern") 40 41 [],
              .rule "type_annotation" (some "type") 41 44 [.token ":" 41, .rule "type_identifier" none 43 44 []]],
            .token ")" 44]],
        .token ";" 45,
        .rule "method_definition" none 49 69 [
          .rule "property_identifier" (some "name") 49 60 [],
          .rule "formal_parameters" (some "parameters") 60 66 [
            .token "(" 60,
            .rule "required_parameter" none 61 65 [
              .rule "identifier" (some "pattern") 61 62 [],
              .rule "type_annotation" (some "type") 62 65 [.token ":" 62, .rule "type_identifier" none 64 65 []]],
            .token ")" 65],
          .rule "statement_block" (some "body") 67 69 [.token "\x7b" 67, .token "\x7d" 68]],
        .rule "method_definition" none 72 112 [
          .rule "property_identifier" (some "name") 72 73 [],
          .rule "formal_parameters" (some "parameters") 73 75 [.token "(" 73, .token ")" 74],
          .rule "statement_block" (some "body") 76 112 [
            .token "\x7b" 76,
            .rule "class_declaration" none 78 110 [
              .token "class" 78, .rule "type_identifier" (some "name") 84 85 [],
              .rule "class_body" (some "body") 86 110 [
                .token "\x7b" 86,
                .rule "method_definition" none 88 108 [
                  .rule "property_identifier" (some "name") 88 99 [],
                  .rule "formal_parameters" (some "parameters") 99 105 [
                    .token "(" 99,
                    .rule "required_parameter" none 100 104 [
                      .rule "identifier" (some "pattern") 100 101 [],
                      .rule "type_annotation" (some "type") 101 104 [
                        .token ":" 101, .rule "type_identifier" none 103 104 []]],
                    .token ")" 104],
                  .rule "statement_block" (some "body") 106 108 [.token "\x7b" 106, .token "\x7d" 107]],
                .token "\x7d" 109]],
            .token "\x7d" 111]],
        .token "\x7d" 113]]]

/-- What is read from the text of that tree. -/
theorem manyMembersTree_spec : manyMembersTree.ArePlaced manyMembers.toList ∧ manyMembersTree.AreShaped ∧
    (manyMembersTree.nodes.filterMap (readClass? ⟨"a.ts"⟩ manyMembers.toList)).map
        (fun c => (c.name, c.parameters.map Parameter.name, c.constructor?.map Constructor.overloads)) =
      [("A", ["b"], some 1), ("B", ["c"], some 0)] := by
  rw [show manyMembers.toList = _ from toList_append_ofList String.toList_ofList]
  decide +kernel

theorem findConstructor?_account_manyMembers :
    let parse := Parser.ofTable [(manyMembers, manyMembersTree)]
    let u := readUnit ⟨"a.ts"⟩ ⟨"a.ts"⟩ manyMembers parse
    parse.PlacesNodes ∧ parse.FollowsGrammar ∧ u.hasSyntaxErrors = false ∧
      ∃ c ∈ u.classes, c.name = "A" ∧ c.parameters.map Parameter.name = ["b"] ∧
        c.constructor?.map Constructor.overloads = some 1 ∧
        ∃ n ∈ (parse (grammarOf ⟨"a.ts"⟩) manyMembers).root.nodes, readClass? ⟨"a.ts"⟩ manyMembers.toList n = some c ∧
          ∃ body ∈ n.children, body.kind = "class_body" ∧
            ConstructorAccount manyMembers.toList body c.constructor? := by
  intro parse u
  obtain ⟨hplaced, hshaped, hclasses⟩ := manyMembersTree_spec
  have hplaces : parse.PlacesNodes := Parser.ofTable_placesNodes (List.forall_mem_singleton.mpr hplaced)
  have hgrammar : parse.FollowsGrammar := Parser.ofTable_followsGrammar (List.forall_mem_singleton.mpr hshaped)
  have htree : parse (grammarOf ⟨"a.ts"⟩) manyMembers = ⟨manyMembersTree, false⟩ := Parser.ofTable_cons_self ..
  have herrors : u.hasSyntaxErrors = false := congrArg SyntaxTree.hasError htree
  have hread : u.classes.map (fun c => (c.name, c.parameters.map Parameter.name,
      c.constructor?.map Constructor.overloads)) = [("A", ["b"], some 1), ("B", ["c"], some 0)] := by
    rw [show u = readTree _ _ _ (parse _ _) from rfl, htree, classes_readTree hplaced hshaped]
    exact hclasses
  obtain ⟨c, hc, hfields⟩ := List.mem_map.mp (hread ▸ List.mem_cons_self)
  obtain ⟨hname, hfields⟩ := Prod.mk.inj hfields
  obtain ⟨hparameters, hoverloads⟩ := Prod.mk.inj hfields
  exact ⟨hplaces, hgrammar, herrors, c, hc, hname, hparameters, hoverloads,
    findConstructor?_account hplaces hgrammar herrors hc⟩

/-- A class whose only member is a static method. -/
def staticConstructor : String := "class A \x7b\n  static constructor(a: A) \x7b\x7d\n\x7d\n"

def staticConstructorTree : SyntaxNode :=
  .rule "program" none 0 42 [
    .rule "class_declaration" none 0 41 [
      .token "class" 0, .rule "type_identifier" (some "name") 6 7 [],
      .rule "class_body" (some "body") 8 41 [
        .token "\x7b" 8,
        .rule "method_definition" none 12 39 [
          .token "static" 12, .rule "property_identifier" (some "name") 19 30 [],
          .rule "formal_parameters" (some "parameters") 30 36 [
            .token "(" 30,
            .rule "required_parameter" none 31 35 [
              .rule "identifier" (some "pattern") 31 32 [],
              .rule "type_annotation" (some "type") 32 35 [.token ":" 32, .rule "type_identifier" none 34 35 []]],
            .token ")" 35],
          .rule "statement_block" (some "body") 37 39 [.token "\x7b" 37, .token "\x7d" 38]],
        .token "\x7d" 40]]]

/-- The static method is taken for the constructor of the class, with its parameter. -/
theorem static_method_taken :
    let parse := Parser.ofTable [(staticConstructor, staticConstructorTree)]
    let u := readUnit ⟨"a.ts"⟩ ⟨"a.ts"⟩ staticConstructor parse
    let bodies := staticConstructorTree.nodes.filter fun n => n.kind == "class_body"
    parse.PlacesNodes ∧ parse.FollowsGrammar ∧ u.hasSyntaxErrors = false ∧
      bodies.map (fun body => (members body).map isStatic) = [[true]] ∧
      u.classes.map (fun c => c.parameters.map Parameter.name) = [["a"]] :=
  ⟨Parser.ofTable_placesNodes (by decide +kernel), Parser.ofTable_followsGrammar (by decide +kernel),
    by decide +kernel, by decide +kernel, by decide +kernel⟩

end FieldInjection.TypeScript
