import FieldInjection.Proofs.Text.Lines
import FieldInjection.Proofs.TypeScript.Offsets

/-!
# How members are indented

How members are indented is read off the line of the first named node in the body of their class, be it a member or a
comment. `memberIndent_account` says what this makes of a class with a member: the blanks before the member that
begins its line, behind comments that begin their lines with the same blanks, and the default behind the blanks of the
brace's line if the member or a comment before it stands in that line. A comment in the brace's line so hides how the
members are indented (`comment_beside_brace_decides`).
-/

namespace FieldInjection.TypeScript

open SyntaxNode

section
variable {source : List Char} {root n body member t : SyntaxNode} {file : Path} {c : ClassDecl}

/-! ## The first node of a body -/

/-- The first named node of a body with a member is the first member, or a comment before it. -/
theorem exists_first (h : body.ArePlaced source) (hmember : (members body).head? = some member) :
    ∃ t, body.namedChildren.head? = some t ∧ t ∈ body.children ∧
      (t = member ∨ t.isComment = true ∧ t.start < member.start) ∧
      ∀ s ∈ body.namedChildren, t.start ≤ s.start := by
  obtain ⟨hmem, hnamed, hcomment⟩ := mem_members_iff.mp (List.mem_of_head? hmember)
  have hmemNamed : member ∈ body.namedChildren := mem_namedChildren_iff.mpr ⟨hmem, hnamed⟩
  obtain ⟨t, ts, hnodes⟩ := List.exists_cons_of_ne_nil (List.ne_nil_of_mem hmemNamed)
  have ht : t ∈ body.children := (mem_namedChildren_iff.mp (by simp [hnodes])).1
  have hnonempty := h.isPlaced.nonempty t ht
  have hordered : body.namedChildren.Pairwise fun c d => c.stop ≤ d.start :=
    h.isPlaced.ordered.sublist List.filter_sublist
  rw [hnodes] at hordered
  -- everything else stands behind the first node
  have hbehind : ∀ s ∈ ts, t.start < s.start := by
    intro s hs
    have hle := (List.pairwise_cons.mp hordered).1 s hs
    omega
  refine ⟨t, by rw [hnodes]; rfl, ht, ?_, ?_⟩
  · cases htcomment : t.isComment with
    | false =>
      left
      rw [members, hnodes, List.filter_cons_of_pos (by simp [htcomment])] at hmember
      exact Option.some.inj hmember
    | true =>
      refine Or.inr ⟨rfl, hbehind member ?_⟩
      refine (List.mem_cons.mp (hnodes ▸ hmemNamed)).resolve_left ?_
      rintro rfl
      rw [hcomment] at htcomment
      cases htcomment
  · intro s hs
    rcases List.mem_cons.mp (hnodes ▸ hs) with rfl | hs
    · exact Nat.le_refl _
    · exact Nat.le_of_lt (hbehind s hs)

/-! ## The indentation of a class -/

/-- Members are indented with spaces and tabs. -/
theorem isSpaceOrTab_memberIndent (source : List Char) (body : SyntaxNode) :
    ∀ c ∈ (memberIndent source body).toList, isSpaceOrTab c = true := by
  unfold memberIndent
  split
  · rename_i blanks hline
    obtain ⟨first, -, hblank⟩ := Option.bind_eq_some_iff.mp hline
    unfold blanksBefore? at hblank
    dsimp only at hblank
    split at hblank
    · rename_i hall
      cases hblank
      rw [String.toList_ofList]
      exact List.all_eq_true.mp hall
    · cases hblank
  · rw [String.toList_ofList]
    intro c hc
    rcases List.mem_append.mp hc with hc | hc
    · exact List.all_eq_true.mp List.all_takeWhile c hc
    · exact List.all_eq_true.mp (by decide : defaultIndent.all isSpaceOrTab = true) c hc

variable {front line : List Char}

/-- What begins its line gives the blanks before it. -/
theorem memberIndent_of_blank (hfirst : body.namedChildren.head? = some t) (hline : StandsInLine source t.start front line)
    (hblank : ∀ c ∈ line, isSpaceOrTab c = true) : (memberIndent source body).toList = line := by
  rw [memberIndent, hfirst, Option.bind_some, hline.blanksBefore?_eq, if_pos (List.all_eq_true.mpr hblank)]
  exact String.toList_ofList

/-- What begins no line gives nothing. -/
theorem memberIndent_of_not_blank (hfirst : body.namedChildren.head? = some t)
    (hline : StandsInLine source t.start front line) {c : Char} (hc : c ∈ line) (hblank : isSpaceOrTab c = false) :
    (memberIndent source body).toList = lineIndent source body.start ++ defaultIndent := by
  have hall : ¬ line.all isSpaceOrTab = true := fun h => by simp [List.all_eq_true.mp h c hc] at hblank
  rw [memberIndent, hfirst, Option.bind_some, hline.blanksBefore?_eq, if_neg hall]
  exact String.toList_ofList

/-- How the members of a class are indented, by its body and its first member. -/
structure IndentAccount (source : List Char) (body member : SyntaxNode) (indent : List Char) : Prop where
  blanks : ∀ c ∈ indent, isSpaceOrTab c = true
  /-- The member begins its line, and so do all comments before it, with the same blanks. -/
  ownLine : ∀ front line, StandsInLine source member.start front line → (∀ c ∈ line, isSpaceOrTab c = true) →
    (∀ t ∈ body.namedChildren, t.isComment = true → t.start < member.start →
      ∃ front', StandsInLine source t.start front' line) → indent = line
  /-- The member, or a comment before it, stands in the line of the opening brace. -/
  braceLine : ∀ front line t line', StandsInLine source body.start front line →
    (t = member ∨ t ∈ body.namedChildren ∧ t.isComment = true ∧ t.start < member.start) →
      StandsInLine source t.start front line' → indent = line.takeWhile isSpaceOrTab ++ defaultIndent
  /-- Wherever a line is looked at, the text is cut at its boundaries. -/
  cuts : ∀ t, t = body ∨ t ∈ body.namedChildren → CutsAtBoundaries source t.start

/-- What stands behind the opening brace in its line has the brace before it. -/
theorem exists_brace_before (h : body.ArePlaced source) (hbrace : body.beginsWith "\x7b" = true)
    {front line line' : List Char} {offset : Nat} (hline : StandsInLine source body.start front line)
    (hline' : StandsInLine source offset front line') (hle : body.start + 1 ≤ offset) :
    lineIndent source body.start = line.takeWhile isSpaceOrTab ∧ '\x7b' ∈ line' := by
  obtain ⟨before, behind, hsource, hstart, hstop⟩ := h.holds_opening hbrace
  have hstart : body.start = byteLength before := hstart
  have hstop : body.start + 1 = byteLength (before ++ ['\x7b']) := hstop
  replace hsource : source = before ++ '\x7b' :: behind := by
    rw [hsource]
    simp
  have hbefore : before = front ++ line := by
    rw [← hline.takeBytes_eq, hsource, hstart, takeBytes_byteLength_append]
  have hboundary : isBoundary source (body.start + 1) = true := by
    rw [hstop, hsource, List.append_cons]
    exact isBoundary_byteLength_append _ _
  -- the text up to the offset is longer than that up to the brace
  obtain ⟨more, hmore⟩ := takeBytes_isPrefix hboundary hline'.boundary hle
  have htake : takeBytes source (body.start + 1) = front ++ line ++ ['\x7b'] := by
    rw [hstop, hsource, List.append_cons, takeBytes_byteLength_append, hbefore]
  rw [htake, hline'.takeBytes_eq, List.append_assoc, List.append_assoc] at hmore
  rw [hbefore] at hsource
  refine ⟨hline.lineIndent_eq hsource rfl, ?_⟩
  rw [← List.append_cancel_left hmore]
  simp

theorem memberIndent_indentAccount (h : body.ArePlaced source) (hbrace : body.beginsWith "\x7b" = true)
    (hmember : (members body).head? = some member) :
    IndentAccount source body member (memberIndent source body).toList := by
  obtain ⟨t, hfirst, ht, hcase, hleast⟩ := exists_first h hmember
  have htNamed : t ∈ body.namedChildren := List.mem_of_head? hfirst
  refine ⟨isSpaceOrTab_memberIndent _ _, ?_, ?_, ?_⟩
  · intro front line hline hblank hsame
    rcases hcase with rfl | ⟨hcomment, hlt⟩
    · exact memberIndent_of_blank hfirst hline hblank
    · obtain ⟨front', hline'⟩ := hsame t htNamed hcomment hlt
      exact memberIndent_of_blank hfirst hline' hblank
  · intro front line s line' hline hs hline'
    have hsNamed : s ∈ body.namedChildren := by
      rcases hs with rfl | ⟨hs, -⟩
      · exact (List.filter_sublist).subset (List.mem_of_head? hmember)
      · exact hs
    -- the first node stands between the brace and the other one, so in the line of the brace
    have hbehind : body.start + 1 ≤ t.start := h.behind_token hbrace (mem_nodes_of_mem_children ht)
      (ne_of_mem_children ht) (isToken_eq_false_of_isNamed (mem_namedChildren_iff.mp htNamed).2)
    obtain ⟨more, hlineFirst⟩ := hline.between hline' (h.child ht).isPlaced.start_boundary (by omega) (hleast s hsNamed)
    obtain ⟨hindent, hmem⟩ := exists_brace_before h hbrace hline hlineFirst hbehind
    rw [← hindent]
    exact memberIndent_of_not_blank hfirst hlineFirst hmem rfl
  · rintro s (rfl | hs)
    · exact cutsAtBoundaries h.isPlaced.start_boundary
    · exact cutsAtBoundaries (h.child (mem_namedChildren_iff.mp hs).1).isPlaced.start_boundary

end

/-- **Where the indentation of a class is taken from.** Take a parser whose nodes stand where they say and have the
shapes of the grammar. A class that is read without errors and has a member has its members indented with spaces and
tabs. These are the blanks before the first member if it begins its line and each comment before it begins its own
line with the same blanks. If the first member or a comment before it stands in the line of the opening brace, they
are the blanks that line begins with and one default indentation. The text is cut at its boundaries only. -/
theorem memberIndent_account {parse : Parser} (hplaces : parse.PlacesNodes) (hgrammar : parse.FollowsGrammar)
    {path relativePath : Path} {text : String}
    (herrors : (readUnit path relativePath text parse).hasSyntaxErrors = false) {c : ClassDecl}
    (hc : c ∈ (readUnit path relativePath text parse).classes) (hmembers : c.hasMembers = true) :
    ∃ n ∈ (parse (grammarOf path) text).root.nodes, readClass? path text.toList n = some c ∧
      ∃ body ∈ n.children, body.kind = "class_body" ∧ ∃ member, (members body).head? = some member ∧
        IndentAccount text.toList body member c.memberIndent.toList := by
  have h := hplaces (grammarOf path) text herrors
  have hshaped := hgrammar (grammarOf path) text herrors
  obtain ⟨n, hn, hread⟩ := mem_classes_readTree hc
  obtain ⟨name, body, hclass, rfl⟩ := readClass?_eq_some hread
  have hbelow := mem_nodes_trans (mem_nodes_of_mem_children hclass.mem_body) hn
  have hbrace := ((hshaped body hbelow).classBody hclass.kind_body).1
  have hne : members body ≠ [] := by simpa using hmembers
  obtain ⟨member, rest, hmember⟩ := List.exists_cons_of_ne_nil hne
  have hhead : (members body).head? = some member := by rw [hmember]; rfl
  exact ⟨n, hn, hread, body, hclass.mem_body, hclass.kind_body, member, hhead,
    memberIndent_indentAccount (h.of_mem hbelow) hbrace hhead⟩

/-- A class with a comment and a field, both behind a tab. -/
def tabbedClass : String := "class A \x7b\n\t// c\n\tx = 1;\n\x7d\n"

def tabbedClassTree : SyntaxNode :=
  .rule "program" none 0 26 [
    .rule "class_declaration" none 0 25 [
      .token "class" 0, .rule "type_identifier" (some "name") 6 7 [],
      .rule "class_body" (some "body") 8 25 [
        .token "\x7b" 8, .rule "comment" none 11 15 [],
        .rule "public_field_definition" none 17 22 [
          .rule "property_identifier" (some "name") 17 18 [], .token "=" 19, .rule "number" (some "value") 21 22 []],
        .token ";" 22, .token "\x7d" 24]]]

theorem memberIndent_account_tabbedClass :
    let parse := Parser.ofTable [(tabbedClass, tabbedClassTree)]
    let u := readUnit ⟨"a.ts"⟩ ⟨"a.ts"⟩ tabbedClass parse
    parse.PlacesNodes ∧ parse.FollowsGrammar ∧ u.hasSyntaxErrors = false ∧
      ∃ c ∈ u.classes, c.hasMembers = true ∧ c.memberIndent = "\t" ∧
        ∃ n ∈ (parse (grammarOf ⟨"a.ts"⟩) tabbedClass).root.nodes, readClass? ⟨"a.ts"⟩ tabbedClass.toList n = some c ∧
          ∃ body ∈ n.children, body.kind = "class_body" ∧ ∃ member, (members body).head? = some member ∧
            IndentAccount tabbedClass.toList body member c.memberIndent.toList := by
  intro parse u
  have hplaces : parse.PlacesNodes := Parser.ofTable_placesNodes (by decide +kernel)
  have hgrammar : parse.FollowsGrammar := Parser.ofTable_followsGrammar (by decide +kernel)
  have herrors : u.hasSyntaxErrors = false := by decide +kernel
  have hread : u.classes.map (fun c => (c.hasMembers, c.memberIndent)) = [(true, "\t")] := by decide +kernel
  obtain ⟨c, hc, hfields⟩ := List.mem_map.mp (hread ▸ List.mem_singleton_self (true, "\t"))
  obtain ⟨hmembers, hindent⟩ := Prod.mk.inj hfields
  exact ⟨hplaces, hgrammar, herrors, c, hc, hmembers, hindent, memberIndent_account hplaces hgrammar herrors hc hmembers⟩

/-- A class with a comment beside its opening brace, and a field that begins its line. -/
def commentBesideBrace : String := "class A \x7b // c\n  x = 1;\n\x7d\n"

def commentBesideBraceTree : SyntaxNode :=
  .rule "program" none 0 26 [
    .rule "class_declaration" none 0 25 [
      .token "class" 0, .rule "type_identifier" (some "name") 6 7 [],
      .rule "class_body" (some "body") 8 25 [
        .token "\x7b" 8, .rule "comment" none 10 14 [],
        .rule "public_field_definition" none 17 22 [
          .rule "property_identifier" (some "name") 17 18 [], .token "=" 19, .rule "number" (some "value") 21 22 []],
        .token ";" 22, .token "\x7d" 24]]]

/-- The only member of this class begins its line behind two spaces. But the comment in the line of the brace is taken
for the first member, and four spaces are the indentation. -/
theorem comment_beside_brace_decides :
    let parse := Parser.ofTable [(commentBesideBrace, commentBesideBraceTree)]
    let u := readUnit ⟨"a.ts"⟩ ⟨"a.ts"⟩ commentBesideBrace parse
    let bodies := commentBesideBraceTree.nodes.filter fun n => n.kind == "class_body"
    parse.PlacesNodes ∧ parse.FollowsGrammar ∧ u.hasSyntaxErrors = false ∧
      (bodies.map fun body => body.namedChildren.map fun n =>
          (n.isComment, lineBefore commentBesideBrace.toList n.start)) =
        [[(true, "class A \x7b ".toList), (false, "  ".toList)]] ∧
      u.classes.map ClassDecl.memberIndent = ["    "] :=
  ⟨Parser.ofTable_placesNodes (by decide +kernel), Parser.ofTable_followsGrammar (by decide +kernel),
    by decide +kernel, by decide +kernel, by decide +kernel⟩

end FieldInjection.TypeScript
