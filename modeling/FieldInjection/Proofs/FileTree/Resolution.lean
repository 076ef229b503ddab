import FieldInjection.Proofs.FileTree.Places
import FieldInjection.Proofs.Path.Segments
import FieldInjection.FileTree.Disk

/-!
# Following a path

What `resolve` does is said by rules about what stands at the places of the tree (`resolve_eq_some_iff`). From the
rules follow the laws that the rest needs: a way can be cut in two (`Leads.cut`), more links do no harm
(`Leads.of_le`), and putting files where nothing leads to a directory leaves every way to a directory as it is
(`Leads.of_agree`).
-/

namespace FieldInjection.Node

/-- Components lead from one place to another over at most so many links. -/
inductive Leads (top : Node) : Nat → List String → List Component → List String → Prop
  | stop {links here} : Leads top links here [] here
  | root {links here rest place} (way : Leads top links [] rest place) : Leads top links here (.root :: rest) place
  | current {links here rest place} (directory : top.itemAt? here = some .directory)
      (way : Leads top links here rest place) : Leads top links here (.current :: rest) place
  | parent {links here rest place} (directory : top.itemAt? here = some .directory)
      (way : Leads top links here.dropLast rest place) : Leads top links here (.parent :: rest) place
  | missing {links here text} (directory : top.itemAt? here = some .directory)
      (none : top.itemAt? (here ++ [text]) = none) : Leads top links here [.name text] (here ++ [text])
  | link {links here text target rest place} (directory : top.itemAt? here = some .directory)
      (link : top.itemAt? (here ++ [text]) = some (.link target))
      (way : Leads top links here (target.components ++ rest) place) :
      Leads top (links + 1) here (.name text :: rest) place
  | entry {links here text i rest place} (directory : top.itemAt? here = some .directory)
      (item : top.itemAt? (here ++ [text]) = some i) (noLink : ∀ target, i ≠ .link target)
      (way : Leads top links (here ++ [text]) rest place) : Leads top links here (.name text :: rest) place

section
variable {top top' : Node} {links : Nat} {here place mid : List String} {cs front rest : List Component}
  {text : String}

theorem leads_of_resolve (h : top.resolve links here cs = some place) : top.Leads links here cs place := by
  induction links, here, cs using resolve.induct top with
  | case1 links here =>
    rw [resolve] at h
    obtain rfl := Option.some.inj h
    exact .stop
  | case2 links here rest ih =>
    rw [resolve] at h
    exact .root (ih h)
  | case3 links here rest es hes _ ih =>
    simp only [resolve, hes] at h
    exact .parent (itemAt?_of_find? hes) (ih h)
  | case4 links here es hes text hlookup =>
    simp only [resolve, hes, hlookup, if_true] at h
    obtain rfl := Option.some.inj h
    refine .missing (itemAt?_of_find? hes) ?_
    rw [itemAt?_concat hes, hlookup]
    rfl
  | case5 links here rest es hes text hlookup hrest =>
    simp [resolve, hes, hlookup, hrest] at h
  | case6 here rest es hes text target hlookup =>
    simp [resolve, hes, hlookup] at h
  | case7 here rest es hes text target hlookup links _ ih =>
    simp only [resolve, hes, hlookup] at h
    refine .link (itemAt?_of_find? hes) ?_ (ih h)
    rw [itemAt?_concat hes, hlookup]
    rfl
  | case8 links here rest es hes text m hlink hlookup _ ih =>
    simp only [resolve, hes, hlookup] at h
    refine .entry (i := m.item) (itemAt?_of_find? hes) ?_ ?_ (ih ?_)
    · rw [itemAt?_concat hes, hlookup]
      rfl
    · intro target htarget
      cases m with
      | link target' => exact hlink target' rfl
      | file content => cases htarget
      | directory es => cases htarget
    · cases m with
      | link target => exact absurd rfl (hlink target)
      | file content => exact h
      | directory es => exact h
  | case9 links here c rest hroot es hes hparent hname ih =>
    cases c with
    | root => exact absurd rfl hroot
    | parent => exact absurd rfl hparent
    | name text => exact absurd rfl (hname text)
    | current =>
      simp only [resolve, hes] at h
      exact .current (itemAt?_of_find? hes) (ih h)
  | case10 links here c rest hroot hnone =>
    -- only a directory can be left by another component than a root
    rw [resolve.eq_def] at h
    split at h
    · exact absurd ‹c :: rest = []› (List.cons_ne_nil c rest)
    · exact absurd (List.cons.inj ‹_›).1 hroot
    · split at h
      · exact absurd ‹_› (hnone _)
      · cases h

theorem resolve_of_leads (h : top.Leads links here cs place) : top.resolve links here cs = some place := by
  induction h with
  | stop => rw [resolve]
  | root way ih => rw [resolve, ih]
  | current directory way ih =>
    obtain ⟨es, hes⟩ := itemAt?_eq_directory directory
    simp only [resolve, hes, ih]
  | parent directory way ih =>
    obtain ⟨es, hes⟩ := itemAt?_eq_directory directory
    simp only [resolve, hes, ih]
  | missing directory none =>
    obtain ⟨es, hes⟩ := itemAt?_eq_directory directory
    rw [itemAt?_concat hes, Option.map_eq_none_iff] at none
    simp only [resolve, hes, none, if_true]
  | link directory link way ih =>
    obtain ⟨es, hes⟩ := itemAt?_eq_directory directory
    rw [itemAt?_concat hes] at link
    obtain ⟨m, hm, hitem⟩ := Option.map_eq_some_iff.mp link
    obtain rfl := item_eq_link hitem
    simp only [resolve, hes, hm, ih]
  | entry directory item noLink way ih =>
    obtain ⟨es, hes⟩ := itemAt?_eq_directory directory
    rw [itemAt?_concat hes] at item
    obtain ⟨m, hm, hitem⟩ := Option.map_eq_some_iff.mp item
    rw [resolve.eq_def]
    simp only [hes, hm]
    cases m with
    | link target => exact absurd hitem.symm (noLink target)
    | file content => exact ih
    | directory es => exact ih

theorem resolve_eq_some_iff : top.resolve links here cs = some place ↔ top.Leads links here cs place :=
  ⟨leads_of_resolve, resolve_of_leads⟩

namespace Leads

theorem unique {place' : List String} (h : top.Leads links here cs place) (h' : top.Leads links here cs place') :
    place = place' :=
  Option.some.inj ((resolve_of_leads h).symm.trans (resolve_of_leads h'))

/-- Being allowed to follow more links does no harm. -/
theorem of_le {more : Nat} (h : top.Leads links here cs place) (hle : links ≤ more) :
    top.Leads more here cs place := by
  induction h generalizing more with
  | stop => exact .stop
  | root _ ih => exact .root (ih hle)
  | current directory _ ih => exact .current directory (ih hle)
  | parent directory _ ih => exact .parent directory (ih hle)
  | missing directory none => exact .missing directory none
  | link directory link _ ih =>
    obtain ⟨more, rfl⟩ : ∃ m, more = m + 1 := Nat.exists_eq_add_one.mpr (by omega)
    exact .link directory link (ih (by omega))
  | entry directory item noLink _ ih => exact .entry directory item noLink (ih hle)

/-- Whatever the links allowed, components lead to one place at most. -/
theorem unique_of_links {links' : Nat} {place' : List String} (h : top.Leads links here cs place)
    (h' : top.Leads links' here cs place') : place = place' :=
  unique (h.of_le (Nat.le_max_left links links')) (h'.of_le (Nat.le_max_right links links'))

/-- A way along two lists of components passes through the place where the first of them ends. -/
theorem cut (hrest : rest ≠ []) (h : top.Leads links here (front ++ rest) place) :
    ∃ left mid, top.Leads links here front mid ∧ top.Leads left mid rest place := by
  generalize hcs : front ++ rest = cs at h
  induction h generalizing front with
  | stop => exact absurd (List.append_eq_nil_iff.mp hcs).2 hrest
  | root way ih =>
    obtain ⟨rfl, rfl⟩ | ⟨front, rfl, rfl⟩ := List.append_eq_cons_iff.mp hcs
    · exact ⟨_, _, .stop, .root way⟩
    · obtain ⟨left, mid, hfront, hmid⟩ := ih rfl
      exact ⟨left, mid, .root hfront, hmid⟩
  | current directory way ih =>
    obtain ⟨rfl, rfl⟩ | ⟨front, rfl, rfl⟩ := List.append_eq_cons_iff.mp hcs
    · exact ⟨_, _, .stop, .current directory way⟩
    · obtain ⟨left, mid, hfront, hmid⟩ := ih rfl
      exact ⟨left, mid, .current directory hfront, hmid⟩
  | parent directory way ih =>
    obtain ⟨rfl, rfl⟩ | ⟨front, rfl, rfl⟩ := List.append_eq_cons_iff.mp hcs
    · exact ⟨_, _, .stop, .parent directory way⟩
    · obtain ⟨left, mid, hfront, hmid⟩ := ih rfl
      exact ⟨left, mid, .parent directory hfront, hmid⟩
  | missing directory none =>
    -- only the last name may be missing
    obtain ⟨rfl, rfl⟩ | ⟨front, rfl, hnil⟩ := List.append_eq_cons_iff.mp hcs
    · exact ⟨0, _, .stop, .missing directory none⟩
    · exact absurd (List.append_eq_nil_iff.mp hnil.symm).2 hrest
  | link directory link way ih =>
    obtain ⟨rfl, rfl⟩ | ⟨front, rfl, rfl⟩ := List.append_eq_cons_iff.mp hcs
    · exact ⟨_, _, .stop, .link directory link way⟩
    · obtain ⟨left, mid, hfront, hmid⟩ := ih (List.append_assoc _ front rest)
      exact ⟨left, mid, .link directory link hfront, hmid⟩
  | entry directory item noLink way ih =>
    obtain ⟨rfl, rfl⟩ | ⟨front, rfl, rfl⟩ := List.append_eq_cons_iff.mp hcs
    · exact ⟨_, _, .stop, .entry directory item noLink way⟩
    · obtain ⟨left, mid, hfront, hmid⟩ := ih rfl
      exact ⟨left, mid, .entry directory item noLink hfront, hmid⟩

/-- A way can go on from where it ended, if something stands there. -/
theorem append (h : top.Leads links here front mid) (hmid : top.itemAt? mid ≠ none)
    (hrest : top.Leads 0 mid rest place) : top.Leads links here (front ++ rest) place := by
  induction h with
  | stop => exact hrest.of_le (Nat.zero_le _)
  | root _ ih => exact .root (ih hmid hrest)
  | current directory _ ih => exact .current directory (ih hmid hrest)
  | parent directory _ ih => exact .parent directory (ih hmid hrest)
  | missing directory none => exact absurd none hmid
  | link directory link _ ih =>
    have hway := ih hmid hrest
    rw [List.append_assoc] at hway
    exact .link directory link hway
  | entry directory item noLink _ ih => exact .entry directory item noLink (ih hmid hrest)

/-- Only from a directory does a way go on, except to the top. -/
theorem directory_of_cons {c : Component} (h : top.Leads links here (c :: rest) place) (hc : c ≠ .root) :
    top.itemAt? here = some .directory := by
  cases h with
  | root => exact absurd rfl hc
  | current directory => exact directory
  | parent directory => exact directory
  | missing directory => exact directory
  | link directory => exact directory
  | entry directory => exact directory

end Leads

/-! ## Ways to a directory -/

/-- No way through the entry at a place leads to a directory. -/
structure IsDeadEnd (top : Node) (place : List String) : Prop where
  item_ne : top.itemAt? place ≠ some .directory
  not_directory : ∀ links here name rest q, place = here ++ [name] → Component.root ∉ rest →
    top.Leads links here (.name name :: rest) q → top.itemAt? q ≠ some .directory

theorem root_not_mem_of_target (target : Path) (h : Component.root ∉ rest) :
    Component.root ∉ (target.components ++ rest).tail := by
  intro hmem
  cases htarget : target.components with
  | nil =>
    rw [htarget] at hmem
    exact h (List.mem_of_mem_tail hmem)
  | cons c cs =>
    rw [htarget, List.cons_append, List.tail_cons, List.mem_append] at hmem
    have htail := target.root_not_mem_tail_components
    rw [htarget] at htail
    exact hmem.elim htail h

/-- What stands in dead ends does not matter to ways that lead to a directory. -/
theorem Leads.of_agree {E : List String → Prop} (hagree : ∀ q, ¬ E q → top'.itemAt? q = top.itemAt? q)
    (hdead : ∀ q, E q → top.IsDeadEnd q) (h : top.Leads links here cs place) (hroot : Component.root ∉ cs.tail)
    (hplace : top.itemAt? place = some .directory) : top'.Leads links here cs place := by
  -- neither a directory nor an entry on a way that ends at one is a dead end
  have hkeep : ∀ q, top.itemAt? q = some .directory → top'.itemAt? q = some .directory := by
    intro q hq
    rw [hagree q fun hE => (hdead q hE).item_ne hq]
    exact hq
  induction h with
  | stop => exact .stop
  | root way ih => exact .root (ih (fun h => hroot (List.mem_of_mem_tail h)) hplace)
  | current directory way ih =>
    exact .current (hkeep _ directory) (ih (fun h => hroot (List.mem_of_mem_tail h)) hplace)
  | parent directory way ih =>
    exact .parent (hkeep _ directory) (ih (fun h => hroot (List.mem_of_mem_tail h)) hplace)
  | missing directory none =>
    rw [none] at hplace
    cases hplace
  | @link links here text target rest place directory link way ih =>
    have hfree : ¬ E (here ++ [text]) := by
      intro hE
      exact (hdead _ hE).not_directory _ here text rest _ rfl hroot (.link directory link way) hplace
    exact .link (hkeep _ directory) ((hagree _ hfree).trans link) (ih (root_not_mem_of_target target hroot) hplace)
  | @entry links here text i rest place directory item noLink way ih =>
    have hfree : ¬ E (here ++ [text]) := by
      intro hE
      exact (hdead _ hE).not_directory _ here text rest _ rfl hroot (.entry directory item noLink way) hplace
    exact .entry (hkeep _ directory) ((hagree _ hfree).trans item) noLink
      (ih (fun h => hroot (List.mem_of_mem_tail h)) hplace)

/-- An entry through which a file is read is a dead end. -/
theorem Leads.isDeadEnd {content : ByteArray} (h : top.Leads links here [.name text] place)
    (hplace : top.itemAt? place = some (.file content)) : top.IsDeadEnd (here ++ [text]) where
  item_ne := by
    intro hdirectory
    have hself : top.Leads links here [.name text] (here ++ [text]) :=
      .entry (h.directory_of_cons (by simp)) hdirectory (by simp) .stop
    rw [h.unique hself, hdirectory] at hplace
    cases hplace
  not_directory := by
    intro links' here' name rest q hname hroot hq hdirectory
    obtain ⟨rfl, hlast⟩ := List.append_inj' hname rfl
    obtain rfl := (List.cons.inj hlast).1
    by_cases hrest : rest = []
    · subst hrest
      rw [h.unique_of_links hq, hdirectory] at hplace
      cases hplace
    · -- beyond the file there is no way on
      rw [← List.singleton_append] at hq
      obtain ⟨left, mid, hmid, hleft⟩ := Leads.cut hrest hq
      rw [h.unique_of_links hmid] at hplace
      obtain ⟨c, rest, rfl⟩ := List.exists_cons_of_ne_nil hrest
      have hdirectory' := hleft.directory_of_cons fun heq => hroot (List.mem_cons.mpr (Or.inl heq.symm))
      rw [hdirectory'] at hplace
      cases hplace

end

end FieldInjection.Node
