import FieldInjection.Proofs.Text.Boundary
import FieldInjection.Text.Line

/-!
# What stands before an offset in its line

Every boundary of a text has a line with some text of it in front of the boundary (`exists_standsInLine`). The functions
that look at a line find exactly this text (`StandsInLine.lineBefore_eq`) and the blanks it begins with
(`StandsInLine.lineIndent_eq`), and all that they cut out of the text is cut at boundaries (`cutsAtBoundaries`).
-/

namespace FieldInjection

/-- The offset stands in the line that begins behind `front`, with `line` before it in that line. -/
structure StandsInLine (text : List Char) (offset : Nat) (front line : List Char) : Prop where
  text_eq : ∃ behind, text = front ++ line ++ behind
  offset_eq : offset = byteLength (front ++ line)
  /-- The text or a line begins behind `front`. -/
  begins : front = [] ∨ front.getLast? = some '\n'
  unbroken : '\n' ∉ line

/-- Where the line of an offset begins. -/
def lineStart (text : List Char) (offset : Nat) : Nat := offset - byteLength (lineBefore text offset)

/-- Looking for the blanks of the line of an offset cuts the text at boundaries only: at the offset, where its line
begins, and behind the blanks at the beginning of the line. -/
structure CutsAtBoundaries (text : List Char) (offset : Nat) : Prop where
  boundary : isBoundary text offset = true
  before : (⟨lineStart text offset, offset⟩ : TextRange).isValidFor text = true
  indent : (⟨lineStart text offset, lineStart text offset + byteLength (lineIndent text offset)⟩ :
    TextRange).isValidFor text = true

section

variable {text front front' line line' behind cs : List Char} {offset offset' : Nat}

/-! ## The line of an offset -/

/-- The last line is what stands behind the last line feed. -/
theorem lastLine_append (hbegins : front = [] ∨ front.getLast? = some '\n') (hline : '\n' ∉ line) :
    lastLine (front ++ line) = line := by
  have hall : ∀ c ∈ line.reverse, (decide (c ≠ '\n')) = true := by
    intro c hc
    refine decide_eq_true fun heq => hline ?_
    rw [← heq]
    exact List.mem_reverse.mp hc
  unfold lastLine
  rw [List.reverse_append, List.takeWhile_append_of_pos hall]
  rcases hbegins with rfl | hfeed
  · simp
  · obtain ⟨init, rfl⟩ := List.getLast?_eq_some_iff.mp hfeed
    simp

theorem exists_lastLine (cs : List Char) : ∃ front, cs = front ++ lastLine cs ∧
    (front = [] ∨ front.getLast? = some '\n') ∧ '\n' ∉ lastLine cs := by
  have hsplit : cs.reverse.dropWhile (· ≠ '\n') = [] ∨
      (cs.reverse.dropWhile (· ≠ '\n')).head? = some '\n' := by
    cases hdrop : cs.reverse.dropWhile (· ≠ '\n') with
    | nil => exact Or.inl rfl
    | cons c rest =>
      right
      have hhead := List.head?_dropWhile_not (· ≠ '\n') cs.reverse
      rw [hdrop] at hhead
      simpa using hhead
  refine ⟨(cs.reverse.dropWhile (· ≠ '\n')).reverse, ?_, ?_, ?_⟩
  · rw [lastLine, ← List.reverse_append, List.takeWhile_append_dropWhile, List.reverse_reverse]
  · simpa [List.getLast?_reverse] using hsplit
  · intro hmem
    have hother := List.all_eq_true.mp List.all_takeWhile '\n' (List.mem_reverse.mp hmem)
    simp at hother

theorem StandsInLine.boundary (h : StandsInLine text offset front line) : isBoundary text offset = true := by
  obtain ⟨behind, rfl⟩ := h.text_eq
  rw [h.offset_eq]
  exact isBoundary_byteLength_append _ _

theorem StandsInLine.takeBytes_eq (h : StandsInLine text offset front line) :
    takeBytes text offset = front ++ line := by
  obtain ⟨behind, rfl⟩ := h.text_eq
  rw [h.offset_eq]
  exact takeBytes_byteLength_append _ _

theorem StandsInLine.lineBefore_eq (h : StandsInLine text offset front line) : lineBefore text offset = line := by
  rw [lineBefore, h.takeBytes_eq]
  exact lastLine_append h.begins h.unbroken

theorem exists_standsInLine (h : isBoundary text offset = true) :
    ∃ front, StandsInLine text offset front (lineBefore text offset) := by
  obtain ⟨front, hcut, hbegins, hline⟩ := exists_lastLine (takeBytes text offset)
  refine ⟨front, ⟨dropBytes text offset, ?_⟩, ?_, hbegins, hline⟩
  · rw [lineBefore, ← hcut, take_append_drop]
  · rw [lineBefore, ← hcut, byteLength_takeBytes h]

theorem takeBytes_isPrefix (h : isBoundary text offset = true) (h' : isBoundary text offset' = true)
    (hle : offset ≤ offset') : takeBytes text offset <+: takeBytes text offset' := by
  obtain ⟨pre, mid, post, rfl, rfl, hmid⟩ := exists_parts h h' hle
  have hoffset : offset' = byteLength (pre ++ mid) := by
    rw [byteLength_append]
    omega
  rw [hoffset, ← List.append_assoc pre mid post, takeBytes_byteLength_append, List.append_assoc,
    takeBytes_byteLength_append]
  exact List.prefix_append _ _

/-- Between two offsets in one line stands no line feed. -/
theorem StandsInLine.between {x : Nat} (h : StandsInLine text offset front line)
    (h' : StandsInLine text offset' front line') (hx : isBoundary text x = true) (hle : offset ≤ x)
    (hle' : x ≤ offset') : ∃ more, StandsInLine text x front (line ++ more) := by
  obtain ⟨more, hmore⟩ := takeBytes_isPrefix h.boundary hx hle
  obtain ⟨rest, hrest⟩ := takeBytes_isPrefix hx h'.boundary hle'
  rw [h.takeBytes_eq] at hmore
  rw [← hmore, h'.takeBytes_eq, List.append_assoc, List.append_assoc] at hrest
  have hline : line ++ (more ++ rest) = line' := List.append_cancel_left hrest
  refine ⟨more, ⟨dropBytes text x, ?_⟩, ?_, h.begins, fun hfeed => h'.unbroken ?_⟩
  · rw [← List.append_assoc, hmore, take_append_drop]
  · rw [← List.append_assoc, hmore, byteLength_takeBytes hx]
  · rw [← hline, ← List.append_assoc]
    exact List.mem_append_left _ hfeed

/-! ## The blanks of a line -/

theorem StandsInLine.blanksBefore?_eq (h : StandsInLine text offset front line) :
    blanksBefore? text offset = if line.all isSpaceOrTab then some line else none := by
  rw [blanksBefore?, h.lineBefore_eq]

/-- The blanks of a line stand before the first character that is none. -/
theorem StandsInLine.lineIndent_eq {c : Char} (h : StandsInLine text offset front line)
    (htext : text = front ++ line ++ c :: behind) (hc : isSpaceOrTab c = false) :
    lineIndent text offset = line.takeWhile isSpaceOrTab := by
  have hdrop : dropBytes text offset = c :: behind := by
    rw [h.offset_eq, htext, dropBytes_byteLength_append]
  rw [lineIndent, h.lineBefore_eq, hdrop, List.takeWhile_append]
  split
  · rw [List.takeWhile_cons_of_neg (by simp [hc]), List.append_nil]
    exact (List.takeWhile_prefix isSpaceOrTab).eq_of_length ‹_› |>.symm
  · rfl

theorem StandsInLine.lineStart_eq (h : StandsInLine text offset front line) :
    lineStart text offset = byteLength front := by
  rw [lineStart, h.lineBefore_eq, h.offset_eq, byteLength_append, Nat.add_sub_cancel]

theorem cutsAtBoundaries (h : isBoundary text offset = true) : CutsAtBoundaries text offset := by
  obtain ⟨front, hline⟩ := exists_standsInLine h
  have hbehind : text = front ++ (lineBefore text offset ++ dropBytes text offset) := by
    rw [← List.append_assoc, ← hline.takeBytes_eq, take_append_drop]
  have hstart : isBoundary text (byteLength front) = true :=
    isBoundary_iff.mpr ⟨front, _, hbehind, rfl⟩
  -- the line is the blanks it begins with, and what is left
  obtain ⟨rest, hrest⟩ := List.takeWhile_prefix isSpaceOrTab (l := lineBefore text offset ++ dropBytes text offset)
  have hindent : isBoundary text (byteLength front + byteLength (lineIndent text offset)) = true := by
    refine isBoundary_iff.mpr ⟨front ++ lineIndent text offset, rest, ?_, byteLength_append _ _⟩
    rw [List.append_assoc, lineIndent, hrest]
    exact hbehind
  refine ⟨h, ?_, ?_⟩ <;> rw [hline.lineStart_eq] <;>
    simp only [TextRange.isValidFor, Bool.and_eq_true, decide_eq_true_eq]
  · refine ⟨⟨?_, hstart⟩, h⟩
    have := hline.offset_eq
    rw [byteLength_append] at this
    omega
  · exact ⟨⟨Nat.le_add_right _ _, hstart⟩, hindent⟩

end

end FieldInjection
