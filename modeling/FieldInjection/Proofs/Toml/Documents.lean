import FieldInjection.Proofs.Lists
import FieldInjection.Proofs.Toml.Strings
import FieldInjection.Toml.Document
import FieldInjection.Toml.Printer

/-!
# Documents that are written are read back

Values are read back from what is written for them (`ReadsAs`): strings, lists of strings and booleans. Reading a
document goes line by line (`ReadsTo`); the lines of a section add a table of its members to what was read before
(`readsTo_section`). So a document of sections is read as the table of their tables (`read?_writeSections`), if no name
of a section and no key in it comes twice.
-/

namespace FieldInjection.Toml

/-- What is written is read as the value, whatever stands in the next lines. -/
structure ReadsAs (text : List Char) (value : Setting) : Prop where
  visible : ∃ c cs, text = c :: cs ∧ isGap c = false
  read : ∀ steps rest, text.length < steps → readValue steps (text ++ '\n' :: rest) = some (value, '\n' :: rest)

/-- A key that is written without marks. -/
def IsBareKey (key : String) : Prop := key.toList ≠ [] ∧ ∀ c ∈ key.toList, isKeyChar c = true

-- The characters of the key are gone through, not all characters that there are.
instance (key : String) : Decidable (IsBareKey key) :=
  decidable_of_iff (key.toList ≠ [] ∧ key.toList.all isKeyChar = true) (by rw [IsBareKey, List.all_eq_true])

/-- The lines of the items of a list. -/
def itemLines (items : List String) : List Char :=
  items.flatMap fun item => "    ".toList ++ writeText item ++ [',', '\n']

/-- A member of a section as it is written, with the value that it is read as. -/
structure WrittenMember where
  key : String
  text : List Char
  value : Setting

/-- A section as it is written. -/
structure WrittenSection where
  name : String
  members : List WrittenMember

/-- What can be read of a section: names without marks, values, and each key once. -/
structure WrittenSection.IsReadable (s : WrittenSection) : Prop where
  name : IsBareKey s.name
  keys : (s.members.map WrittenMember.key).Nodup
  members : ∀ m ∈ s.members, IsBareKey m.key ∧ ReadsAs m.text m.value

/-- The lines of members. -/
def writeMembers (ms : List WrittenMember) : List Char := ms.flatMap fun m => writeMember m.key m.text

def WrittenSection.write (s : WrittenSection) : List Char := writeHeader s.name ++ writeMembers s.members

/-- The lines of sections, with an empty line between two of them. -/
def writeSections : List WrittenSection → List Char
  | [] => []
  | [s] => s.write
  | s :: ss => s.write ++ '\n' :: writeSections ss

/-- What members are read as. -/
def entriesOf (ms : List WrittenMember) : Members := ms.map fun m => (m.key, .value m.value)

/-- What a section is read as, with its name. -/
def WrittenSection.entry (s : WrittenSection) : String × Entry := (s.name, .table .opened (entriesOf s.members))

/-- The value of a section, with its name. -/
def WrittenSection.setting (s : WrittenSection) : String × Setting :=
  (s.name, .table (s.members.map fun m => (m.key, m.value)))

/-- Reading the lines of one text comes to the lines of another one with another draft. -/
def ReadsTo (d : Draft) (cs : List Char) (d' : Draft) (rest : List Char) : Prop :=
  ∀ steps, cs.length < steps → ∃ steps', rest.length < steps' ∧ readLines steps d cs = readLines steps' d' rest

section

variable {c : Char} {cs rest more text : List Char} {steps : Nat} {key name item : String} {value : Setting}
  {d d' d'' : Draft}

/-! ## Blanks -/

theorem skipGap_of_visible (hc : isGap c = false) (cs : List Char) : skipGap (c :: cs) = c :: cs :=
  List.dropWhile_cons_of_neg (by simp [hc])

theorem skipLines_of_visible (hgap : isGap c = false) (hother : c ∉ ['#', '\n', '\r']) (steps : Nat) (cs : List Char) :
    skipLines steps (c :: cs) = c :: cs := by
  simp only [List.mem_cons, List.not_mem_nil, or_false, not_or] at hother
  cases steps with
  | zero => rfl
  | succ steps => simp [skipLines, skipGap_of_visible hgap, skipComment, hother]

theorem skipLines_break (steps : Nat) (cs : List Char) : skipLines (steps + 1) ('\n' :: cs) = skipLines steps cs := rfl

theorem skipLines_indented (hgap : isGap c = false) (hother : c ∉ ['#', '\n', '\r']) (steps : Nat) (cs : List Char) :
    skipLines (steps + 1) ("    ".toList ++ c :: cs) = c :: cs := by
  have hskip : skipGap ("    ".toList ++ c :: cs) = skipGap (c :: cs) := rfl
  have h := skipLines_of_visible hgap hother (steps + 1) cs
  rw [skipLines] at h ⊢
  rw [hskip]
  exact h

/-! ## Values -/

/-- A string that is written begins with a mark. -/
theorem exists_writeText (s : String) : ∃ mark cs, writeText s = mark :: cs ∧ (mark = '"' ∨ mark = '\'') := by
  unfold writeText
  cases formOf s.toList with
  | basic => exact ⟨'"', _, rfl, Or.inl rfl⟩
  | literal => exact ⟨'\'', _, rfl, Or.inr rfl⟩
  | longBasic => exact ⟨'"', _, rfl, Or.inl rfl⟩
  | longLiteral => exact ⟨'\'', _, rfl, Or.inr rfl⟩

theorem readValue_writeText (s : String) (hrest : IsBehindText rest) (steps : Nat) :
    readValue (steps + 1) (writeText s ++ rest) = some (.text s, rest) := by
  simp only [readValue, readText?_writeText s hrest, Option.map_some]

theorem skipLines_writeText (s : String) (rest : List Char) (steps : Nat) :
    skipLines steps (writeText s ++ rest) = writeText s ++ rest := by
  obtain ⟨mark, cs, hwritten, rfl | rfl⟩ := exists_writeText s <;> rw [hwritten, List.cons_append] <;>
    exact skipLines_of_visible (by decide) (by decide) steps _

theorem skipLines_indented_writeText (s : String) (rest : List Char) (steps : Nat) :
    skipLines (steps + 1) ("    ".toList ++ (writeText s ++ rest)) = writeText s ++ rest := by
  obtain ⟨mark, cs, hwritten, rfl | rfl⟩ := exists_writeText s <;> rw [hwritten, List.cons_append] <;>
    exact skipLines_indented (by decide) (by decide) steps _

/-- An item of a list, with the sign behind it. -/
theorem readItems_item (hskip : skipLines (cs.length + 1) cs = writeText item ++ c :: more)
    (hc : c = ',' ∨ c = ']') (steps : Nat) : readItems (steps + 2) cs =
      if c = ',' then (readItems (steps + 1) more).map fun r => (.text item :: r.1, r.2)
      else some ([.text item], more) := by
  have hbehind : IsBehindText (c :: more) := by
    rcases hc with rfl | rfl <;> exact ⟨(fun h => by cases h), fun h => by cases h⟩
  have hread := readValue_writeText item hbehind steps
  have hsign : skipLines ((c :: more).length + 1) (c :: more) = c :: more := by
    rcases hc with rfl | rfl <;> exact skipLines_of_visible (by decide) (by decide) _ _
  obtain ⟨mark, tail, hwritten, hmark⟩ := exists_writeText item
  have hclose : ∀ rest, writeText item ++ c :: more ≠ ']' :: rest := by
    intro rest heq
    rw [hwritten] at heq
    rcases hmark with rfl | rfl <;> cases heq
  rw [readItems, hskip]
  split
  · rename_i rest heq
    exact absurd heq (hclose rest)
  · rw [hread]
    dsimp only
    rw [hsign]
    rcases hc with rfl | rfl <;> rfl

theorem length_le_itemLines (items : List String) : items.length ≤ (itemLines items).length := by
  induction items with
  | nil => exact Nat.zero_le _
  | cons item items ih =>
    rw [itemLines, List.flatMap_cons, ← itemLines, List.length_append, List.length_append, List.length_cons]
    simp only [List.length_cons, List.length_nil]
    omega

theorem readItems_lines (items : List String) (rest : List Char) (hsteps : items.length + 1 < steps) :
    readItems steps ('\n' :: itemLines items ++ ']' :: rest) = some (items.map .text, rest) := by
  induction items generalizing steps with
  | nil =>
    obtain ⟨steps, rfl⟩ : ∃ n, steps = n + 1 := ⟨steps - 1, by omega⟩
    rfl
  | cons item items ih =>
    rw [List.length_cons] at hsteps
    obtain ⟨steps, rfl⟩ : ∃ n, steps = n + 2 := ⟨steps - 2, by omega⟩
    have hwritten : '\n' :: itemLines (item :: items) ++ ']' :: rest =
        '\n' :: ("    ".toList ++ (writeText item ++ ',' :: ('\n' :: itemLines items ++ ']' :: rest))) := by
      simp [itemLines]
    have hskip := skipLines_indented_writeText item (',' :: ('\n' :: itemLines items ++ ']' :: rest))
    rw [hwritten, readItems_item (c := ',') (by rw [List.length_cons, skipLines_break]; exact hskip _) (Or.inl rfl),
      if_pos rfl, ih (by omega)]
    rfl

theorem isBehindText_break (rest : List Char) : IsBehindText ('\n' :: rest) :=
  ⟨(fun h => by cases h), fun h => by cases h⟩

theorem readsAs_writeText (s : String) : ReadsAs (writeText s) (.text s) where
  visible := by
    obtain ⟨mark, cs, hwritten, rfl | rfl⟩ := exists_writeText s <;> exact ⟨_, cs, hwritten, by decide⟩
  read := by
    intro steps rest hsteps
    obtain ⟨steps, rfl⟩ := Nat.exists_eq_add_one_of_ne_zero (Nat.ne_zero_of_lt hsteps)
    exact readValue_writeText s (isBehindText_break rest) steps

theorem readsAs_writeBoolean (b : Bool) : ReadsAs (writeBoolean b) (.boolean b) where
  visible := by cases b <;> exact ⟨_, _, rfl, by decide⟩
  read := by
    intro steps rest hsteps
    obtain ⟨steps, rfl⟩ := Nat.exists_eq_add_one_of_ne_zero (Nat.ne_zero_of_lt hsteps)
    cases b <;> rfl

/-- Reading what is written in square brackets. -/
theorem readsAs_list (inside : List Char) {items : List Setting}
    (hread : ∀ steps rest, inside.length < steps → readItems steps (inside ++ rest) = some (items, rest)) :
    ReadsAs ('[' :: inside) (.list items) where
  visible := ⟨'[', inside, rfl, by decide⟩
  read := by
    intro steps rest hsteps
    rw [List.length_cons] at hsteps
    obtain ⟨steps, rfl⟩ := Nat.exists_eq_add_one_of_ne_zero (Nat.ne_zero_of_lt hsteps)
    have hnone : readText? ('[' :: (inside ++ '\n' :: rest)) = none := rfl
    rw [List.cons_append, readValue, hnone]
    simp only [hread steps ('\n' :: rest) (by omega), Option.map_some]

theorem readsAs_writeList (items : List String) : ReadsAs (writeList items) (.list (items.map .text)) := by
  unfold writeList
  split
  · refine readsAs_list [']'] fun steps rest hsteps => ?_
    obtain ⟨steps, rfl⟩ := Nat.exists_eq_add_one_of_ne_zero (Nat.ne_zero_of_lt hsteps)
    rfl
  · rename_i item
    refine readsAs_list (writeText item ++ [']']) fun steps rest hsteps => ?_
    obtain ⟨mark, cs, hwritten, -⟩ := exists_writeText item
    rw [List.length_append, hwritten, List.length_cons, List.length_singleton] at hsteps
    obtain ⟨steps, rfl⟩ : ∃ n, steps = n + 2 := ⟨steps - 2, by omega⟩
    have hskip := skipLines_writeText item (']' :: rest)
    rw [List.append_assoc, List.singleton_append, readItems_item (c := ']') (hskip _) (Or.inr rfl), if_neg (by decide)]
    rfl
  · refine readsAs_list ('\n' :: itemLines items ++ [']']) fun steps rest hsteps => ?_
    have hlength := length_le_itemLines items
    rw [List.length_append, List.length_cons, List.length_singleton] at hsteps
    rw [List.append_assoc, List.singleton_append]
    exact readItems_lines items rest (by omega)

/-! ## Keys -/

theorem ne_of_isKeyChar {other : Char} (hc : isKeyChar c = true) (hother : isKeyChar other = false) : c ≠ other := by
  rintro rfl
  rw [hc] at hother
  cases hother

theorem not_gap_of_isKeyChar (hc : isKeyChar c = true) : isGap c = false := by
  have hspace : c ≠ ' ' := ne_of_isKeyChar hc (by decide)
  have htab : c ≠ '\t' := ne_of_isKeyChar hc (by decide)
  simp [isGap, hspace, htab]

theorem exists_of_isBareKey (hkey : IsBareKey key) : ∃ c cs, key.toList = c :: cs ∧ isKeyChar c = true := by
  obtain ⟨c, cs, h⟩ := List.exists_cons_of_ne_nil hkey.1
  exact ⟨c, cs, h, hkey.2 c (h ▸ List.mem_cons_self)⟩

/-- A key is read up to the first character that cannot be part of it. -/
theorem readSimpleKey_bare (hkey : IsBareKey key) (hc : isKeyChar c = false) (cs : List Char) :
    readSimpleKey (key.toList ++ c :: cs) = some (key, c :: cs) := by
  have hword : (key.toList ++ c :: cs).takeWhile isKeyChar = key.toList := by
    rw [List.takeWhile_append_of_pos hkey.2, List.takeWhile_cons_of_neg (by simp [hc]), List.append_nil]
  obtain ⟨first, more, hfirst, hchar⟩ := exists_of_isBareKey hkey
  unfold readSimpleKey
  split
  · rename_i heq
    rw [hfirst] at heq
    exact absurd (List.cons.inj heq).1 (ne_of_isKeyChar hchar (by decide))
  · rename_i heq
    rw [hfirst] at heq
    exact absurd (List.cons.inj heq).1 (ne_of_isKeyChar hchar (by decide))
  · dsimp only
    rw [hword, if_neg hkey.1, String.ofList_toList, List.drop_left]

theorem readKeys_bare (hkey : IsBareKey key) (hc : isKeyChar c = false) (cs : List Char)
    (hdot : (skipGap (c :: cs)).head? ≠ some '.') (steps : Nat) :
    readKeys (steps + 1) (key.toList ++ c :: cs) = some ([key], skipGap (c :: cs)) := by
  rw [readKeys, readSimpleKey_bare hkey hc]
  dsimp only
  split
  · rename_i heq
    rw [heq] at hdot
    exact absurd rfl hdot
  · rfl

theorem readAssignment_bare (hkey : IsBareKey key) (hc : isGap c = false) (cs : List Char) :
    readAssignment (key.toList ++ (" = ".toList ++ c :: cs)) = some ([key], c :: cs) := by
  have hkeys := readKeys_bare hkey (c := ' ') (by decide) ('=' :: ' ' :: c :: cs) (fun h => by cases h)
    (key.toList ++ (" = ".toList ++ c :: cs)).length
  have hsign : skipGap (' ' :: '=' :: ' ' :: c :: cs) = '=' :: ' ' :: c :: cs := rfl
  have hvalue : skipGap (' ' :: c :: cs) = c :: cs := skipGap_of_visible hc cs
  rw [hsign] at hkeys
  unfold readAssignment
  rw [show " = ".toList ++ c :: cs = ' ' :: '=' :: ' ' :: c :: cs from rfl] at hkeys ⊢
  rw [hkeys]
  exact congrArg (fun cs => some ([key], cs)) hvalue

/-! ## Lines -/

theorem ReadsTo.refl (d : Draft) (cs : List Char) : ReadsTo d cs d cs := fun steps hsteps => ⟨steps, hsteps, rfl⟩

theorem ReadsTo.trans (h : ReadsTo d cs d' more) (h' : ReadsTo d' more d'' rest) : ReadsTo d cs d'' rest := by
  intro steps hsteps
  obtain ⟨steps', hsteps', hread⟩ := h steps hsteps
  obtain ⟨steps'', hsteps'', hread'⟩ := h' steps' hsteps'
  exact ⟨steps'', hsteps'', hread.trans hread'⟩

/-- A line that is read up to its end. -/
theorem readsTo_line (hgap : isGap c = false) (hline : readLine d (c :: cs) = some (d', '\n' :: rest))
    (hlt : rest.length ≤ cs.length) : ReadsTo d (c :: cs) d' rest := by
  intro steps hsteps
  rw [List.length_cons] at hsteps
  obtain ⟨steps, rfl⟩ := Nat.exists_eq_add_one_of_ne_zero (Nat.ne_zero_of_lt hsteps)
  refine ⟨steps, by omega, ?_⟩
  have hnext : nextLines? ('\n' :: rest) = some rest := rfl
  simp only [readLines, skipGap_of_visible hgap, hline, hnext]

theorem readsTo_blank (d : Draft) (cs : List Char) : ReadsTo d ('\n' :: cs) d cs :=
  readsTo_line (by decide) rfl (Nat.le_refl _)

theorem readLine_member {members : Members} (hkey : IsBareKey key) (hreads : ReadsAs text value)
    (hassign : within (assign value [key]) d.header d.members = some members) (rest : List Char) :
    readLine d (writeMember key text ++ rest) = some ({ d with members }, '\n' :: rest) := by
  obtain ⟨c, cs, htext, hgap⟩ := hreads.visible
  obtain ⟨first, more, hfirst, hchar⟩ := exists_of_isBareKey hkey
  have hassignment := readAssignment_bare hkey hgap (cs ++ '\n' :: rest)
  have hvalue := hreads.read ((text ++ '\n' :: rest).length + 1) rest (by rw [List.length_append]; omega)
  have hwritten : writeMember key text ++ rest = key.toList ++ (" = ".toList ++ c :: (cs ++ '\n' :: rest)) := by
    simp [writeMember, htext]
  rw [← List.cons_append, ← htext] at hassignment hwritten
  rw [hwritten]
  -- the line begins with a character of a key, so it is no header, no comment and no blank line
  have hstarts : ∀ c cs, key.toList ++ (" = ".toList ++ (text ++ '\n' :: rest)) = c :: cs → isKeyChar c = true := by
    intro c cs heq
    rw [hfirst] at heq
    rw [← (List.cons.inj heq).1]
    exact hchar
  unfold readLine
  split
  · rename_i heq
    exact absurd (hstarts _ _ heq) (by decide)
  · rename_i heq
    exact absurd (hstarts _ _ heq) (by decide)
  · rename_i heq
    rw [hfirst] at heq
    cases heq
  · rename_i heq
    exact absurd (hstarts _ _ heq) (by decide)
  · rename_i heq
    exact absurd (hstarts _ _ heq) (by decide)
  · rename_i heq
    exact absurd (hstarts _ _ heq) (by decide)
  · rw [hassignment]
    dsimp only
    rw [hvalue]
    dsimp only
    rw [hassign]
    rfl

theorem readsTo_member {members : Members} (hkey : IsBareKey key) (hreads : ReadsAs text value)
    (hassign : within (assign value [key]) d.header d.members = some members) (rest : List Char) :
    ReadsTo d (writeMember key text ++ rest) { d with members } rest := by
  obtain ⟨first, more, hfirst, hchar⟩ := exists_of_isBareKey hkey
  have hline := readLine_member hkey hreads hassign rest
  have hwritten : writeMember key text ++ rest = first :: (more ++ (" = ".toList ++ (text ++ '\n' :: rest))) := by
    simp [writeMember, hfirst]
  rw [hwritten] at hline ⊢
  refine readsTo_line (not_gap_of_isKeyChar hchar) hline ?_
  simp only [List.length_append, List.length_cons]
  omega

theorem readsTo_header {members : Members} (hname : IsBareKey name) (hopen : openLast name d.members = some members)
    (rest : List Char) : ReadsTo d (writeHeader name ++ rest) ⟨members, [name]⟩ rest := by
  obtain ⟨first, more, hfirst, hchar⟩ := exists_of_isBareKey hname
  have hkeys : readHeaderKeys (name.toList ++ ']' :: '\n' :: rest) = some ([name], ']' :: '\n' :: rest) := by
    have hread := readKeys_bare hname (c := ']') (by decide) ('\n' :: rest) (fun h => by cases h)
      (name.toList ++ ']' :: '\n' :: rest).length
    have hskip : skipGap (name.toList ++ ']' :: '\n' :: rest) = name.toList ++ ']' :: '\n' :: rest := by
      rw [hfirst]
      exact skipGap_of_visible (not_gap_of_isKeyChar hchar) _
    unfold readHeaderKeys
    rw [hskip, hread]
    rfl
  have hwritten : writeHeader name ++ rest = '[' :: (name.toList ++ ']' :: '\n' :: rest) := by simp [writeHeader]
  have hline : readLine d ('[' :: (name.toList ++ ']' :: '\n' :: rest)) =
      some (⟨members, [name]⟩, '\n' :: rest) := by
    unfold readLine
    split
    · -- the name begins with no bracket, so this is no header of an array of tables
      rename_i heq
      rw [hfirst] at heq
      exact absurd (List.cons.inj (List.cons.inj heq).2).1 (ne_of_isKeyChar hchar (by decide))
    · rename_i heq
      cases heq
      rw [hkeys]
      simp [Draft.openHeader, within, hopen]
    · rename_i heq
      cases heq
    · rename_i heq
      cases heq
    · rename_i heq
      cases heq
    · rename_i heq
      cases heq
    · rename_i hother _ _ _ _
      exact absurd rfl (hother _)
  rw [hwritten]
  refine readsTo_line (by decide) hline ?_
  simp only [List.length_append, List.length_cons]
  omega

/-! ## Sections -/

theorem putEntry_append_of_not_mem {done : Members} (h : key ∉ done.map Prod.fst) (e : Entry) (others : Members) :
    putEntry key e (done ++ others) = done ++ putEntry key e others := by
  induction done with
  | nil => rfl
  | cons m done ih =>
    rw [List.map_cons, List.mem_cons, not_or] at h
    rw [List.cons_append, putEntry, if_neg (Ne.symm h.1), ih h.2, List.cons_append]

theorem assign_new {members : Members} (h : key ∉ members.map Prod.fst) (value : Setting) :
    assign value [key] members = some (members ++ [(key, .value value)]) := by
  have hlookup := lookup_append_of_not_mem h []
  have hput := putEntry_append_of_not_mem h (.value value) []
  rw [List.append_nil] at hlookup hput
  rw [assign, hlookup, hput]
  rfl

/-- The lines of members add them to the table that was opened last. -/
theorem readsTo_members {done : Members} (entries : Members) {ms : List WrittenMember} (hname : name ∉ done.map Prod.fst)
    (hms : ∀ m ∈ ms, IsBareKey m.key ∧ ReadsAs m.text m.value)
    (hkeys : (entries.map Prod.fst ++ ms.map WrittenMember.key).Nodup) (rest : List Char) :
    ReadsTo ⟨done ++ [(name, .table .opened entries)], [name]⟩ (writeMembers ms ++ rest)
      ⟨done ++ [(name, .table .opened (entries ++ entriesOf ms))], [name]⟩ rest := by
  induction ms generalizing entries with
  | nil =>
    rw [entriesOf, List.map_nil, List.append_nil]
    exact .refl _ _
  | cons m ms ih =>
    obtain ⟨hkey, hreads⟩ := hms m List.mem_cons_self
    have hnew : m.key ∉ entries.map Prod.fst := by
      rw [List.nodup_append] at hkeys
      exact fun hmem => hkeys.2.2 _ hmem _ (by simp) rfl
    -- the header in force names the last table, whatever tables stand before it
    have hassign : within (assign m.value [m.key]) [name] (done ++ [(name, .table .opened entries)]) =
        some (done ++ [(name, .table .opened (entries ++ [(m.key, .value m.value)]))]) := by
      rw [within, lookup_append_of_not_mem hname]
      simp [within, assign_new hnew, putEntry_append_of_not_mem hname, putEntry]
    have hline := readsTo_member (d := ⟨done ++ [(name, .table .opened entries)], [name]⟩) hkey hreads hassign
      (writeMembers ms ++ rest)
    have hrest := ih (entries ++ [(m.key, .value m.value)])
      (fun m hm => hms m (List.mem_cons_of_mem _ hm)) (by simpa using hkeys)
    rw [List.append_assoc] at hrest
    rw [writeMembers, List.flatMap_cons, List.append_assoc]
    exact hline.trans hrest

/-- The lines of a section add the table of its members, if no section before it has its name. -/
theorem readsTo_section {done : Members} {header : List String} {s : WrittenSection} (hs : s.IsReadable)
    (hnew : s.name ∉ done.map Prod.fst) (rest : List Char) :
    ReadsTo ⟨done, header⟩ (s.write ++ rest) ⟨done ++ [s.entry], [s.name]⟩ rest := by
  have hopen : openLast s.name done = some (done ++ [(s.name, .table .opened [])]) := by
    have hlookup := lookup_append_of_not_mem hnew []
    have hput := putEntry_append_of_not_mem hnew (.table .opened []) []
    rw [List.append_nil] at hlookup hput
    rw [openLast, hlookup, hput]
    rfl
  have hheader := readsTo_header (d := ⟨done, header⟩) hs.name hopen (writeMembers s.members ++ rest)
  rw [WrittenSection.write, List.append_assoc]
  exact hheader.trans (readsTo_members [] hnew hs.members hs.keys rest)

theorem readsTo_sections (done : Members) (header : List String) {ss : List WrittenSection}
    (hss : ∀ s ∈ ss, s.IsReadable) (hnames : (done.map Prod.fst ++ ss.map WrittenSection.name).Nodup) :
    ∃ header', ReadsTo ⟨done, header⟩ (writeSections ss) ⟨done ++ ss.map WrittenSection.entry, header'⟩ [] := by
  induction ss generalizing done header with
  | nil =>
    rw [List.map_nil, List.append_nil]
    exact ⟨header, .refl _ _⟩
  | cons s ss ih =>
    have hnew : s.name ∉ done.map Prod.fst := by
      rw [List.nodup_append] at hnames
      exact fun hmem => hnames.2.2 _ hmem _ (by simp) rfl
    have hfirst : ∀ rest, ReadsTo ⟨done, header⟩ (s.write ++ rest) ⟨done ++ [s.entry], [s.name]⟩ rest :=
      readsTo_section (hss s List.mem_cons_self) hnew
    cases ss with
    | nil =>
      have h := hfirst []
      rw [List.append_nil] at h
      exact ⟨[s.name], h⟩
    | cons s' ss =>
      -- an empty line stands before the next section
      obtain ⟨header', hrest⟩ := ih (done ++ [s.entry]) [s.name]
        (fun s hs => hss s (List.mem_cons_of_mem _ hs)) (by simpa [WrittenSection.entry] using hnames)
      rw [List.append_assoc] at hrest
      exact ⟨header', (hfirst _).trans ((readsTo_blank _ _).trans hrest)⟩

/-! ## Documents -/

theorem settingsOf_eq_map (ms : Members) : settingsOf ms = ms.map fun m => (m.1, m.2.toSetting) := by
  induction ms with
  | nil => rw [settingsOf, List.map_nil]
  | cons m ms ih => rw [settingsOf, List.map_cons, ih]

theorem settingsOf_sections (ss : List WrittenSection) :
    settingsOf (ss.map WrittenSection.entry) = ss.map WrittenSection.setting := by
  rw [settingsOf_eq_map, List.map_map]
  refine List.map_congr_left fun s _ => ?_
  rw [Function.comp_apply, WrittenSection.entry, WrittenSection.setting, Entry.toSetting, settingsOf_eq_map, entriesOf,
    List.map_map]
  refine congrArg (fun ms => (s.name, Setting.table ms)) (List.map_congr_left fun m _ => ?_)
  rw [Function.comp_apply, Entry.toSetting]

/-- A document is read if its lines are read up to the last one. -/
theorem read?_of_readsTo {text : String} (h : ReadsTo ⟨[], []⟩ text.toList d [])
    (hmark : text.toList.head? ≠ some '\ufeff') : read? text = some (.table (settingsOf d.members)) := by
  obtain ⟨steps, hsteps, hread⟩ := h (text.toList.length + 1) (Nat.lt_succ_self _)
  obtain ⟨steps, rfl⟩ := Nat.exists_eq_add_one_of_ne_zero (Nat.ne_zero_of_lt hsteps)
  have hlines : read? text = (readLines (text.toList.length + 1) ⟨[], []⟩ text.toList).map fun d =>
      .table (settingsOf d.members) := by
    unfold read?
    split
    · rename_i heq
      rw [heq] at hmark
      exact absurd rfl hmark
    · rfl
  rw [hlines, hread]
  rfl

theorem head?_writeSections (ss : List WrittenSection) : (writeSections ss).head? ≠ some '\ufeff' := by
  match ss with
  | [] => exact fun h => by cases h
  | [s] => exact fun h => by cases h
  | s :: s' :: ss => exact fun h => by cases h

/-- **A document of sections is read as the table of their tables.** -/
theorem read?_writeSections {ss : List WrittenSection} (hss : ∀ s ∈ ss, s.IsReadable)
    (hnames : (ss.map WrittenSection.name).Nodup) :
    read? (String.ofList (writeSections ss)) = some (.table (ss.map WrittenSection.setting)) := by
  obtain ⟨header, hlines⟩ := readsTo_sections [] [] hss hnames
  rw [← String.toList_ofList (l := writeSections ss)] at hlines
  rw [read?_of_readsTo hlines (by rw [String.toList_ofList]; exact head?_writeSections ss), List.nil_append,
    settingsOf_sections]

end

end FieldInjection.Toml
