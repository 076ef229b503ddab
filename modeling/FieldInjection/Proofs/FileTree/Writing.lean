import FieldInjection.Proofs.FileTree.Reading

/-!
# Files that are written

A path can be written if it is not spelled like that of a directory and leads to a place where no directory stands
(`Disk.TakesFile`). The place is then an entry of a directory, and no link (`exists_entry_of_takesFile`). Putting a file
there changes nothing else that stands in the tree, so the path still leads to the place, and the file is read
(`read?_put`).
-/

namespace FieldInjection

namespace Node

section

variable {n child top : Node} {name : String} {here place q : List String} {i : Item} {links : Nat}
  {cs : List Component}

theorem itemAt?_nil_of_directory (h : n.itemAt? q = some .directory) : n.itemAt? [] = some .directory := by
  cases q with
  | nil => exact h
  | cons name q =>
    obtain ⟨m, hm, -⟩ := Option.map_eq_some_iff.mp h
    rw [find?_cons, Option.bind_eq_some_iff] at hm
    obtain ⟨child, hchild, -⟩ := hm
    obtain ⟨es, rfl, -⟩ := exists_of_entry? hchild
    rfl

/-- What is put in the place of an entry that is no directory changes nothing that stands anywhere else. -/
theorem itemAt?_put_of_ne (hhere : n.itemAt? here = some .directory)
    (hnew : n.itemAt? (here ++ [name]) ≠ some .directory) (hq : q ≠ here ++ [name]) (hitem : n.itemAt? q = some i) :
    (child.put (here ++ [name]) n).itemAt? q = some i := by
  induction here generalizing n q with
  | nil =>
    obtain ⟨es, hes⟩ := item_eq_directory (Option.some.inj hhere)
    subst hes
    cases q with
    | nil => exact hitem
    | cons other q =>
      rw [List.nil_append, put, put, itemAt?, find?_cons, entry?, entries, lookup_putEntry]
      split
      · -- nothing stands below what is not a directory
        rename_i heq
        subst heq
        obtain ⟨m, hm, -⟩ := Option.map_eq_some_iff.mp hitem
        rw [find?_cons, Option.bind_eq_some_iff] at hm
        obtain ⟨child', hchild, hbelow⟩ := hm
        have hleaf : child'.item ≠ .directory := by
          intro hdirectory
          refine hnew ?_
          rw [List.nil_append, itemAt?, find?_cons, hchild]
          exact congrArg some hdirectory
        obtain ⟨next, q, rfl⟩ := List.exists_cons_of_ne_nil (l := q) (by rintro rfl; exact hq rfl)
        rw [find?_cons_of_not_directory hleaf] at hbelow
        cases hbelow
      · rwa [itemAt?, find?_cons, entry?] at hitem
  | cons a here ih =>
    obtain ⟨m, hm, hdirectory⟩ := Option.map_eq_some_iff.mp hhere
    rw [find?_cons, Option.bind_eq_some_iff] at hm
    obtain ⟨next, hnext, hrest⟩ := hm
    obtain ⟨es, rfl, -⟩ := exists_of_entry? hnext
    -- below the first name the place is as far from the other one as it was
    have hitemAt : ∀ q, (directory es).itemAt? (a :: q) = next.itemAt? q := by
      intro q
      rw [itemAt?, find?_cons, hnext, Option.bind_some, ← itemAt?]
    cases q with
    | nil => exact hitem
    | cons other q =>
      rw [List.cons_append, put, itemAt?, find?_cons, entry?, entries, lookup_putEntry]
      split
      · rename_i heq
        subst heq
        rw [Option.bind_some, ← itemAt?, hnext, Option.getD_some]
        rw [hitemAt] at hhere hitem
        rw [List.cons_append, hitemAt] at hnew
        exact ih hhere hnew (fun heq => hq (congrArg (other :: ·) heq)) hitem
      · rwa [itemAt?, find?_cons, entry?] at hitem

/-- Where a way ends that leads to no directory: where it began, at the top, or at an entry that is no link. -/
theorem Leads.exists_entry (h : top.Leads links here cs place) (hplace : top.itemAt? place ≠ some .directory) :
    place = here ∨ place = [] ∨ ∃ front name, place = front ++ [name] ∧ top.itemAt? front = some .directory ∧
      ∀ target, top.itemAt? place ≠ some (.link target) := by
  induction h with
  | stop => exact Or.inl rfl
  | root _ ih => exact Or.inr ((ih hplace).elim Or.inl id)
  | current _ _ ih => exact ih hplace
  | parent directory _ ih =>
    rcases ih hplace with rfl | hentry
    · exact absurd (itemAt?_dropLast directory) hplace
    · exact Or.inr hentry
  | @missing links here text directory none =>
    exact Or.inr (Or.inr ⟨here, text, rfl, directory, fun target => by simp [none]⟩)
  | link _ _ _ ih => exact ih hplace
  | @entry links here text i rest place directory item noLink _ ih =>
    rcases ih hplace with rfl | hentry
    · refine Or.inr (Or.inr ⟨here, text, rfl, directory, fun target heq => ?_⟩)
      rw [item] at heq
      exact noLink target (Option.some.inj heq)
    · exact Or.inr hentry

/-- A way still leads to an entry when a file is put there and all that stands anywhere else is kept. -/
theorem Leads.of_kept {top' : Node} {content : ByteArray} (h : top.Leads links here cs place)
    (hplace : top.itemAt? place ≠ some .directory) (hlink : ∀ target, top.itemAt? place ≠ some (.link target))
    (hkeep : ∀ q i, q ≠ place → top.itemAt? q = some i → top'.itemAt? q = some i)
    (hfile : top'.itemAt? place = some (.file content)) : top'.Leads links here cs place := by
  have hdirectory : ∀ q, top.itemAt? q = some .directory → top'.itemAt? q = some .directory := by
    intro q hq
    refine hkeep q _ ?_ hq
    rintro rfl
    exact hplace hq
  induction h with
  | stop => exact .stop
  | root _ ih => exact .root (ih hplace hlink hkeep hfile)
  | current directory _ ih => exact .current (hdirectory _ directory) (ih hplace hlink hkeep hfile)
  | parent directory _ ih => exact .parent (hdirectory _ directory) (ih hplace hlink hkeep hfile)
  -- where nothing was, the file is now
  | missing directory none => exact .entry (hdirectory _ directory) hfile (by simp) .stop
  | link directory link _ ih =>
    refine .link (hdirectory _ directory) (hkeep _ _ ?_ link) (ih hplace hlink hkeep hfile)
    rintro rfl
    exact hlink _ link
  | @entry links here text i rest place directory item noLink _ ih =>
    have hway := ih hplace hlink hkeep hfile
    by_cases heq : here ++ [text] = place
    · rw [← heq] at hfile
      exact .entry (hdirectory _ directory) hfile (by simp) hway
    · exact .entry (hdirectory _ directory) (hkeep _ _ heq item) noLink hway

end

end Node

namespace Disk

/-- A file can be written at the path. -/
def TakesFile (d : Disk) (p : Path) : Prop :=
  p.endsLikeDirectory = false ∧ ∃ place, d.locate? p = some place ∧ d.top.itemAt? place ≠ some .directory

section

variable {d : Disk} {p : Path} {place : List String}

theorem exists_leads_of_locate? (h : d.locate? p = some place) :
    p.text ≠ "" ∧ d.top.Leads maxLinks d.workingDirectory p.components place := by
  unfold locate? at h
  split at h
  · cases h
  · rename_i htext
    exact ⟨htext, Node.leads_of_resolve h⟩

/-- A path that can be written leads to an entry of a directory, and that is no link. -/
theorem exists_entry_of_locate? (hend : p.endsLikeDirectory = false) (h : d.locate? p = some place)
    (hplace : d.top.itemAt? place ≠ some .directory) : ∃ front name, place = front ++ [name] ∧
      d.top.itemAt? front = some .directory ∧ ∀ target, d.top.itemAt? place ≠ some (.link target) := by
  obtain ⟨htext, hway⟩ := exists_leads_of_locate? h
  have hroots := p.root_not_mem_tail_components
  obtain ⟨c, cs, hcomponents⟩ := List.exists_cons_of_ne_nil (Path.components_ne_nil htext)
  rw [hcomponents] at hway hroots
  -- the top is a directory, and the way does not end where it begins
  by_cases hc : c = .root
  · subst hc
    cases hway with
    | root way =>
      obtain ⟨c, cs, rfl⟩ : ∃ c cs', cs = c :: cs' := by
        refine List.exists_cons_of_ne_nil fun hnil => ?_
        have hroot := Path.endsLikeDirectory_of_root (p := p) (by rw [hcomponents, hnil]; rfl)
        rw [hroot] at hend
        cases hend
      have hc : c ≠ .root := by
        rintro rfl
        exact hroots List.mem_cons_self
      have htop := way.directory_of_cons hc
      rcases way.exists_entry hplace with rfl | rfl | hentry
      · exact absurd htop hplace
      · exact absurd htop hplace
      · exact hentry
  · have hbegin := hway.directory_of_cons hc
    rcases hway.exists_entry hplace with rfl | rfl | hentry
    · exact absurd hbegin hplace
    · exact absurd (Node.itemAt?_nil_of_directory hbegin) hplace
    · exact hentry

/-- **What is written at a path is read there.** -/
theorem read?_put (hend : p.endsLikeDirectory = false) (h : d.locate? p = some place)
    (hplace : d.top.itemAt? place ≠ some .directory) (content : ByteArray) :
    (d.put place (.file content)).read? p = some content := by
  obtain ⟨front, name, rfl, hfront, hlink⟩ := exists_entry_of_locate? hend h hplace
  obtain ⟨htext, hway⟩ := exists_leads_of_locate? h
  have hfile := Node.itemAt?_put_self (.file content) (front ++ [name]) d.top
  refine read?_eq_some_iff.mpr ⟨htext, hend, front ++ [name], ?_, hfile⟩
  exact hway.of_kept hplace hlink (fun _ _ => Node.itemAt?_put_of_ne hfront hplace) hfile

end

end Disk

end FieldInjection
