import FieldInjection.Proofs.FileTree.Reading
import FieldInjection.Proofs.Planning.Conflict
import FieldInjection.Proofs.Planning.Independence
import FieldInjection.Proofs.Workspace.Discovery

/-!
# Loading

A project that was loaded holds the files below its root as they stand on the disk: every unit reads there as it was
loaded, and different units have different paths that name different entries (`load_isLoaded`).
-/

namespace FieldInjection

section
variable {d : Disk} {root : Path} {place names : List String} {n : Node} {content : ByteArray}

/-- The way from a root to a file below it. -/
theorem Disk.read?_join (hroot : d.locate? root = some place) (hplace : d.top.find? place = some n)
    (hne : names ≠ []) (hnames : ∀ name ∈ names, Path.IsFileName name)
    (hfile : n.find? names = some (.file content)) :
    d.locateEntry? (root.join ⟨String.intercalate "/" names⟩) = some (place ++ names) ∧
    d.read? (root.join ⟨String.intercalate "/" names⟩) = some content := by
  obtain ⟨htext, hway⟩ : root.text ≠ "" ∧ d.top.Leads maxLinks d.workingDirectory root.components place := by
    unfold locate? at hroot
    split at hroot
    · cases hroot
    · rename_i htext
      exact ⟨htext, Node.leads_of_resolve hroot⟩
  have hcomponents := Path.components_join htext hne hnames
  have hmid : d.top.itemAt? place ≠ none := by simp [Node.itemAt?_of_find? hplace]
  constructor
  · obtain ⟨front, last, rfl⟩ := (List.eq_nil_or_concat' names).resolve_left hne
    -- what holds the file is a directory
    rw [Node.find?_append, Option.bind_eq_some_iff] at hfile
    obtain ⟨m, hm, hfile⟩ := hfile
    rw [Node.find?_cons, Option.bind_eq_some_iff] at hfile
    obtain ⟨child, hentry, -⟩ := hfile
    obtain ⟨es, rfl, -⟩ := Node.exists_of_entry? hentry
    have hdirectory : d.top.itemAt? (place ++ front) = some .directory := by
      refine Node.itemAt?_of_find? (m := .directory es) ?_
      rw [Node.find?_append, hplace]
      exact hm
    have hfront := hway.append hmid (Node.leads_of_find? hplace hm (by simp [Node.item]))
    refine Disk.locateEntry?_eq_some_iff.mpr
      ⟨root.components ++ front.map .name, place ++ front, last, ?_, hfront, hdirectory, ?_⟩
    · rw [hcomponents]
      simp
    · simp
  · have hfind : d.top.find? (place ++ names) = some (.file content) := by
      rw [Node.find?_append, hplace]
      exact hfile
    refine Disk.read?_eq_some_iff.mpr ⟨Path.text_join_ne htext hne hnames,
      Path.endsLikeDirectory_join htext hne hnames, place ++ names, ?_, Node.itemAt?_of_find? hfind⟩
    rw [hcomponents]
    exact hway.append hmid (Node.leads_of_find? hplace hfile (by simp [Node.item]))

end

namespace Workspace

section
variable {parse : Parser} {r : Request} {d : Disk} {p : Project} {found : List FoundFile} {units : List SourceUnit}

/-- What is known of a project that has just been loaded. -/
structure IsLoaded (parse : Parser) (d : Disk) (p : Project) : Prop where
  distinct : p.HasDistinctPaths
  parsed : p.IsParsed parse
  reads : ∀ u ∈ p.units, d.readText? u.path = some u.text
  apart : p.units.Pairwise fun u v => d.locateEntry? u.path ≠ d.locateEntry? v.path

/-- The files that are found stand on the disk, different files at different entries. -/
theorem filesBelow_spec {d : NamedDisk} {root : Path} {n : Node} (hn : d.find? root = some n)
    (hdirectory : n.item = .directory) :
    (∀ x ∈ filesBelow root n, d.read? x.path = some x.content) ∧
    (filesBelow root n).Pairwise fun x y =>
      x.path.same y.path = false ∧ d.locateEntry? x.path ≠ d.locateEntry? y.path := by
  obtain ⟨htext, hwell⟩ := d.root_of_find? hn
  obtain ⟨place, hplace, hm⟩ := exists_place_of_find? hn
  have hread : ∀ x ∈ filesBelow root n, ∃ names, x.path = root.join ⟨String.intercalate "/" names⟩ ∧
      d.locateEntry? x.path = some (place ++ names) ∧ d.read? x.path = some x.content := by
    intro x hx
    obtain ⟨names, hfile, hrelative, hpath⟩ := (mem_filesBelow_iff hwell).mp hx
    obtain ⟨hne, hnames⟩ := names_of_file hwell hdirectory hfile
    rw [hrelative] at hpath
    rw [hpath]
    exact ⟨names, rfl, Disk.read?_join hplace hm hne hnames hfile⟩
  constructor
  · intro x hx
    obtain ⟨-, -, -, hcontent⟩ := hread x hx
    exact hcontent
  · refine (pairwise_filesBelow htext hwell hdirectory).imp_of_mem ?_
    intro x y hx hy hlt
    have hother : x.path.same y.path = false := by
      rw [Bool.eq_false_iff]
      intro hsame
      rw [Path.compare_eq_iff.mpr hsame] at hlt
      cases hlt
    refine ⟨hother, ?_⟩
    -- below one directory, an entry has one path
    obtain ⟨names, hpath, hentry, -⟩ := hread x hx
    obtain ⟨names', hpath', hentry', -⟩ := hread y hy
    rw [hentry, hentry']
    intro heq
    rw [hpath, hpath', List.append_cancel_left (Option.some.inj heq), Path.same_self] at hother
    cases hother

theorem findFiles_eq_ok [GlobReader] {root : Path} {including excluding : List String}
    (h : (findFiles root including excluding d).answer = .ok found) :
    ∃ n, d.find? root = some n ∧ n.item = .directory ∧ found.Sublist (filesBelow root n) := by
  unfold findFiles at h
  split at h
  · cases h
  · rename_i filter hfilter
    split at h
    · cases h
    · rename_i found' hdiscover
      obtain rfl := Except.ok.inj h
      unfold discover at hdiscover
      split at hdiscover
      · rename_i es hroot
        obtain rfl := Except.ok.inj hdiscover
        exact ⟨.directory es, hroot, rfl, List.filter_sublist⟩
      · cases hdiscover

theorem load_eq_ok [GlobReader] (h : (load r d parse).answer = .ok p) : ∃ n found units, d.find? r.root = some n ∧
    n.item = .directory ∧ found.Sublist (filesBelow r.root n) ∧ (readFiles parse found).1 = .ok units ∧
    p = .ofUnits r.root units := by
  unfold load at h
  cases hsearch : (findFiles r.root r.filePatterns r.excludePatterns d).answer with
  | error failure => simp [hsearch] at h
  | ok found =>
    obtain ⟨n, hn, hdirectory, hfound⟩ := findFiles_eq_ok hsearch
    simp only [hsearch] at h
    split at h
    · cases h
    · rename_i units events hunits
      exact ⟨n, found, units, hn, hdirectory, hfound, congrArg Prod.fst hunits, (Except.ok.inj h).symm⟩

theorem state_load [GlobReader] (parse : Parser) (r : Request) (d : Disk) : (load r d parse).state = d := by
  unfold load
  simp only
  split
  · rfl
  · split <;> rfl

theorem load_isLoaded [GlobReader] {d : NamedDisk} (h : (load r d.toDisk parse).answer = .ok p) :
    IsLoaded parse d.toDisk p := by
  obtain ⟨n, found, units, hn, hdirectory, hfound, hunits, rfl⟩ := load_eq_ok h
  obtain ⟨hcontent, hapart⟩ := filesBelow_spec hn hdirectory
  obtain ⟨hpaths, hread⟩ := readFiles_spec hunits
  have hperm := Project.units_perm r.root units
  -- the units have the paths of the files
  have hpairwise : units.Pairwise fun u v =>
      u.path.same v.path = false ∧ d.locateEntry? u.path ≠ d.locateEntry? v.path := by
    have hmap : (found.map FoundFile.path).Pairwise fun f g =>
        f.same g = false ∧ d.locateEntry? f ≠ d.locateEntry? g := List.pairwise_map.mpr (hapart.sublist hfound)
    rw [hpaths] at hmap
    exact List.pairwise_map.mp hmap
  refine ⟨?_, ?_, ?_, ?_⟩
  · exact ofUnits_hasDistinctPaths r.root (hpairwise.imp And.left)
  · intro u hu
    obtain ⟨x, -, hx⟩ := hread u (hperm.subset hu)
    obtain ⟨-, -, text, hu⟩ := readFile_eq_ok hx
    exact ⟨_, _, text, hu⟩
  · intro u hu
    obtain ⟨x, hx, hux⟩ := hread u (hperm.subset hu)
    obtain ⟨hpath, htext, -⟩ := readFile_eq_ok hux
    rw [← hpath, Disk.readText?, hcontent x (hfound.subset hx)]
    exact htext
  · exact hperm.symm.pairwise (hpairwise.imp And.right) fun h => h.symm

end

end Workspace

end FieldInjection
