import FieldInjection.Proofs.FileTree.Resolution

/-!
# Files that are read and replaced

A path whose file can be read ends in the name of a file or of a link to one, in a directory that the rest of the path
leads to (`exists_entry_of_read?`). Two disks that differ at such entries alone have the same directories, so each
path still names the same entry of them (`DiffersAt.locateEntry?_eq`), and reading a path gives what was put there
(`DiffersAt.read?_eq`).
-/

namespace FieldInjection

theorem Node.itemAt?_dropLast {n : Node} {place : List String} (h : n.itemAt? place = some .directory) :
    n.itemAt? place.dropLast = some .directory := by
  obtain rfl | ⟨front, name, rfl⟩ := List.eq_nil_or_concat' place
  · exact h
  · rw [List.dropLast_concat]
    rw [itemAt?, find?_append] at h
    cases hfront : n.find? front with
    | none => simp [hfront] at h
    | some m =>
      rw [hfront, Option.bind_some, find?_cons] at h
      cases hentry : m.entry? name with
      | none => simp [hentry] at h
      | some child =>
        obtain ⟨es, rfl, -⟩ := exists_of_entry? hentry
        exact itemAt?_of_find? hfront

namespace Disk

section
variable {d d' : Disk} {p : Path} {place : List String} {content : ByteArray} {E : List String → Prop}

theorem locateEntry?_eq_some_iff : d.locateEntry? p = some place ↔
    ∃ front here name, p.components = front ++ [.name name] ∧
      d.top.Leads maxLinks d.workingDirectory front here ∧ d.top.itemAt? here = some .directory ∧
      place = here ++ [name] := by
  constructor
  · intro h
    unfold locateEntry? at h
    split at h
    · rename_i name hlast
      split at h
      · cases h
      · rename_i here hway
        split at h
        · rename_i es hes
          have hsplit : p.components = p.components.dropLast ++ [.name name] :=
            (List.dropLast_append_getLast? _ hlast).symm
          exact ⟨_, here, name, hsplit, Node.leads_of_resolve hway, Node.itemAt?_of_find? hes,
            (Option.some.inj h).symm⟩
        · cases h
    · cases h
  · -- the last component is a name, and all before it lead to a directory
    rintro ⟨front, here, name, hsplit, hway, hdirectory, rfl⟩
    obtain ⟨es, hes⟩ := Node.itemAt?_eq_directory hdirectory
    unfold locateEntry?
    rw [hsplit, List.getLast?_concat, List.dropLast_concat]
    simp only [Node.resolve_of_leads hway, hes]

theorem read?_eq_some_iff : d.read? p = some content ↔ p.text ≠ "" ∧ p.endsLikeDirectory = false ∧
    ∃ place, d.top.Leads maxLinks d.workingDirectory p.components place ∧
      d.top.itemAt? place = some (.file content) := by
  -- a content is read exactly where a file is found
  have hfind : d.read? p = some content ↔ d.find? p = some (.file content) := by
    unfold read?
    split
    · rename_i content' hfile
      simp [hfile]
    · rename_i hother
      constructor
      · intro h
        cases h
      · intro h
        exact absurd h (hother content)
  have hitem : ∀ place, d.top.itemAt? place = some (.file content) ↔ d.top.find? place = some (.file content) := by
    intro place
    constructor
    · intro h
      obtain ⟨m, hm, hfile⟩ := Option.map_eq_some_iff.mp h
      rw [hm, Node.item_eq_file hfile]
    · exact Node.itemAt?_of_find?
  rw [hfind]
  constructor
  · intro h
    obtain ⟨place, hplace, hnode⟩ := Option.bind_eq_some_iff.mp h
    obtain ⟨node, hnode, hend⟩ := Option.bind_eq_some_iff.mp hnode
    unfold locate? at hplace
    split at hplace
    · cases hplace
    · rename_i htext
      split at hend
      · cases hend
      · rename_i hspelled
        obtain rfl := Option.some.inj hend
        refine ⟨htext, by simpa [Node.isDirectory] using hspelled, place, Node.leads_of_resolve hplace, ?_⟩
        exact (hitem place).mpr hnode
  · rintro ⟨htext, hend, place, hway, hfile⟩
    have hplace : d.locate? p = some place := by
      rw [locate?, if_neg htext]
      exact Node.resolve_of_leads hway
    refine Option.bind_eq_some_iff.mpr ⟨place, hplace, ?_⟩
    refine Option.bind_eq_some_iff.mpr ⟨_, (hitem place).mp hfile, ?_⟩
    simp [hend]

theorem fromUTF8?_toUTF8 (text : String) : String.fromUTF8? text.toUTF8 = some text := by
  rw [String.fromUTF8?, String.toUTF8_eq_toByteArray, dif_pos text.isValidUTF8]
  rfl

theorem readText?_of_read? {text : String} (h : d.read? p = some text.toUTF8) : d.readText? p = some text := by
  rw [readText?, h, Option.bind_some, fromUTF8?_toUTF8]

/-- A path whose file can be read names an entry, and that leads to no directory. -/
theorem exists_entry_of_read? (h : d.read? p = some content) :
    ∃ place, d.locateEntry? p = some place ∧ d.top.itemAt? place ≠ none ∧ d.top.IsDeadEnd place := by
  obtain ⟨htext, hend, place, hway, hfile⟩ := read?_eq_some_iff.mp h
  obtain ⟨front, c, hsplit⟩ := (List.eq_nil_or_concat' p.components).resolve_left (Path.components_ne_nil htext)
  rw [hsplit] at hway
  obtain ⟨left, here, hfront, hlast⟩ := hway.cut (List.cons_ne_nil c [])
  -- every other component leads to a directory or is spelled like one
  cases hlast with
  | root way =>
    have hroot := Path.endsLikeDirectory_of_root (p := p) (by rw [hsplit, List.getLast?_concat])
    rw [hroot] at hend
    cases hend
  | current directory way =>
    cases way
    rw [directory] at hfile
    cases hfile
  | parent directory way =>
    cases way
    rw [Node.itemAt?_dropLast directory] at hfile
    cases hfile
  | missing directory none =>
    rw [none] at hfile
    cases hfile
  | @link _ _ name target _ _ directory link way =>
    have hentry := locateEntry?_eq_some_iff.mpr ⟨front, here, name, hsplit, hfront, directory, rfl⟩
    refine ⟨here ++ [name], hentry, by simp [link], (Node.Leads.link directory link way).isDeadEnd hfile⟩
  | @entry _ _ name i _ _ directory item noLink way =>
    have hentry := locateEntry?_eq_some_iff.mpr ⟨front, here, name, hsplit, hfront, directory, rfl⟩
    refine ⟨here ++ [name], hentry, by simp [item], (Node.Leads.entry directory item noLink way).isDeadEnd hfile⟩

/-- Two disks that agree but for entries that are dead ends. -/
structure DiffersAt (d d' : Disk) (E : List String → Prop) : Prop where
  workingDirectory_eq : d'.workingDirectory = d.workingDirectory
  itemAt?_eq : ∀ q, ¬ E q → d'.top.itemAt? q = d.top.itemAt? q
  isDeadEnd : ∀ q, E q → d.top.IsDeadEnd q

theorem DiffersAt.leads (h : d.DiffersAt d' E) {front : List Component} {here : List String}
    (hroot : Component.root ∉ front.tail) (hway : d.top.Leads maxLinks d.workingDirectory front here)
    (hdirectory : d.top.itemAt? here = some .directory) :
    d'.top.Leads maxLinks d'.workingDirectory front here ∧ d'.top.itemAt? here = some .directory := by
  constructor
  · rw [h.workingDirectory_eq]
    exact hway.of_agree h.itemAt?_eq h.isDeadEnd hroot hdirectory
  · rw [h.itemAt?_eq here fun hE => (h.isDeadEnd here hE).item_ne hdirectory]
    exact hdirectory

theorem root_not_mem_front {front : List Component} {c : Component} (hsplit : p.components = front ++ [c]) :
    Component.root ∉ front.tail := by
  intro hmem
  have hroot := p.root_not_mem_tail_components
  rw [hsplit] at hroot
  cases front with
  | nil => cases hmem
  | cons c' front => exact hroot (List.mem_append_left _ hmem)

/-- A path names the same entry of both disks. -/
theorem DiffersAt.locateEntry?_eq (h : d.DiffersAt d' E) (hplace : d.locateEntry? p = some place) :
    d'.locateEntry? p = some place := by
  obtain ⟨front, here, name, hsplit, hway, hdirectory, rfl⟩ := locateEntry?_eq_some_iff.mp hplace
  obtain ⟨hway', hdirectory'⟩ := h.leads (root_not_mem_front hsplit) hway hdirectory
  exact locateEntry?_eq_some_iff.mpr ⟨front, here, name, hsplit, hway', hdirectory', rfl⟩

/-- Where a file was read, the file that is now in its place is read. -/
theorem DiffersAt.read?_eq (h : d.DiffersAt d' E) (hread : d.read? p = some content)
    (hplace : d.locateEntry? p = some place) {new : ByteArray} (hnew : d'.top.itemAt? place = some (.file new)) :
    d'.read? p = some new := by
  obtain ⟨htext, hend, -⟩ := read?_eq_some_iff.mp hread
  obtain ⟨front, here, name, hsplit, hway, hdirectory, rfl⟩ := locateEntry?_eq_some_iff.mp hplace
  obtain ⟨hway', hdirectory'⟩ := h.leads (root_not_mem_front hsplit) hway hdirectory
  refine read?_eq_some_iff.mpr ⟨htext, hend, here ++ [name], ?_, hnew⟩
  rw [hsplit]
  refine hway'.append (by simp [hdirectory']) ?_
  exact .entry hdirectory' hnew (by simp) .stop

/-- Replacing a file that could be read changes its entry and nothing else. -/
theorem DiffersAt.replace (h : d.DiffersAt d' E)
    (hfiles : ∀ q, E q → ∃ content, d'.top.itemAt? q = some (.file content)) (hread : d.read? p = some content)
    (hplace : d.locateEntry? p = some place) (text : String) :
    (d'.replace p text).workingDirectory = d'.workingDirectory ∧
    (d'.replace p text).top.itemAt? place = some (.file text.toUTF8) ∧
    ∀ q, q ≠ place → (d'.replace p text).top.itemAt? q = d'.top.itemAt? q := by
  obtain ⟨place', hplace', hsome, hdead⟩ := exists_entry_of_read? hread
  obtain rfl := Option.some.inj (hplace.symm.trans hplace')
  -- what stands in the place now is a file that was put there, or what stood there before
  have hold : ∃ old, d'.top.find? place = some old ∧ old.item ≠ .directory := by
    by_cases hE : E place
    · obtain ⟨content, hcontent⟩ := hfiles place hE
      obtain ⟨old, hold, hitem⟩ := Option.map_eq_some_iff.mp hcontent
      exact ⟨old, hold, by simp [hitem]⟩
    · obtain ⟨i, hi⟩ := Option.ne_none_iff_exists'.mp hsome
      rw [← h.itemAt?_eq place hE] at hi
      obtain ⟨old, hold, hitem⟩ := Option.map_eq_some_iff.mp hi
      refine ⟨old, hold, ?_⟩
      intro hdirectory
      have hstood := h.itemAt?_eq place hE
      rw [Node.itemAt?_of_find? hold, hdirectory] at hstood
      exact hdead.item_ne hstood.symm
  obtain ⟨old, hfind, hitem⟩ := hold
  rw [Disk.replace, h.locateEntry?_eq hplace]
  refine ⟨rfl, Node.itemAt?_put_self _ place _, ?_⟩
  intro q hq
  exact Node.itemAt?_put_other (by simp [Node.item]) hitem hfind hq

end

end Disk

end FieldInjection
