import FieldInjection.Migration.Workspace
import FieldInjection.Proofs.FileTree.Walk
import FieldInjection.Proofs.Path.Display
import FieldInjection.Proofs.Path.Order

/-!
# Discovering files

The files below a root are those of its tree, under the root and the names that lead to them (`mem_filesBelow_iff`). A
walk that takes the entries of every directory by their names finds them in the order of paths, which compares component
by component (`pairwise_filesBelow`). So discovery gives exactly the selected files, strictly increasing, and a project
keeps them in this order (`discover_exact`).
-/

namespace FieldInjection

namespace Path

variable {root : Path} {names names' : List String}

theorem compareComponents_append_left (cs as bs : List Component) :
    compareComponents (cs ++ as) (cs ++ bs) = compareComponents as bs := by
  induction cs with
  | nil => rfl
  | cons c cs ih =>
    have hself : c.compare c = .eq := Std.ReflCmp.compare_self
    rw [List.cons_append, List.cons_append, compareComponents, hself, ih]
    rfl

/-- Names are compared one after the other. -/
theorem compareComponents_of_lt (h : names < names') :
    compareComponents (names.map Component.name) (names'.map Component.name) = .lt := by
  induction h with
  | nil => rfl
  | @rel name _ name' _ hlt =>
    have hfirst : (Component.name name).compare (.name name') = .lt := if_pos hlt
    rw [List.map_cons, List.map_cons, compareComponents, hfirst]
    rfl
  | @cons name names names' _ ih =>
    have hself : (Component.name name).compare (.name name) = .eq := Std.ReflCmp.compare_self
    rw [List.map_cons, List.map_cons, compareComponents, hself, ih]
    rfl

theorem compare_join (hroot : root.text ≠ "") (hne : names ≠ []) (h : ∀ name ∈ names, IsFileName name)
    (hne' : names' ≠ []) (h' : ∀ name ∈ names', IsFileName name) (hlt : names < names') :
    (root.join ⟨String.intercalate "/" names⟩).compare (root.join ⟨String.intercalate "/" names'⟩) = .lt := by
  rw [compare, components_join hroot hne h, components_join hroot hne' h', compareComponents_append_left,
    compareComponents_of_lt hlt]

end Path

section
variable {d : Disk} {root : Path} {n : Node} {names : List String} {content : ByteArray} {x : FoundFile}

/-! ## The files below a root -/

theorem exists_place_of_find? (hn : d.find? root = some n) :
    ∃ place, d.locate? root = some place ∧ d.top.find? place = some n := by
  obtain ⟨place, hplace, hnode⟩ := Option.bind_eq_some_iff.mp hn
  obtain ⟨m, hm, hend⟩ := Option.bind_eq_some_iff.mp hnode
  split at hend
  · cases hend
  · obtain rfl := Option.some.inj hend
    exact ⟨place, hplace, hm⟩

theorem NamedDisk.root_of_find? {d : NamedDisk} (hn : d.find? root = some n) :
    root.text ≠ "" ∧ n.isWellNamed = true := by
  obtain ⟨place, hplace, hm⟩ := exists_place_of_find? hn
  refine ⟨?_, Node.isWellNamed_of_find? d.isWellNamed hm⟩
  intro htext
  simp [Disk.locate?, htext] at hplace

/-- A file below a directory has names that lead to it. -/
theorem names_of_file (hn : n.isWellNamed = true) (hdirectory : n.item = .directory)
    (hfile : n.find? names = some (.file content)) : names ≠ [] ∧ ∀ name ∈ names, Path.IsFileName name := by
  refine ⟨?_, (Node.isAt_of_mem_files hn ((Node.mem_files_iff hn).mpr hfile)).2⟩
  rintro rfl
  obtain rfl := Option.some.inj hfile
  cases hdirectory

theorem mem_filesBelow_iff (hn : n.isWellNamed = true) : x ∈ filesBelow root n ↔
    ∃ names, n.find? names = some (.file x.content) ∧ x.relativePath = ⟨String.intercalate "/" names⟩ ∧
      x.path = root.join x.relativePath := by
  constructor
  · intro hx
    obtain ⟨y, hy, rfl⟩ := List.mem_map.mp hx
    exact ⟨y.1, (Node.mem_files_iff hn).mp hy, rfl, rfl⟩
  · rintro ⟨names, hfile, hrelative, hpath⟩
    refine List.mem_map.mpr ⟨(names, x.content), (Node.mem_files_iff hn).mpr hfile, ?_⟩
    rw [hrelative] at hpath
    show FoundFile.mk (root.join ⟨String.intercalate "/" names⟩) ⟨String.intercalate "/" names⟩ x.content = x
    rw [← hpath, ← hrelative]

/-- The order of a walk is the order of paths. -/
theorem pairwise_filesBelow (hroot : root.text ≠ "") (hn : n.isWellNamed = true) (hdirectory : n.item = .directory) :
    (filesBelow root n).Pairwise fun x y => x.path.compare y.path = .lt := by
  refine List.pairwise_map.mpr ((Node.pairwise_files hn).imp_of_mem ?_)
  intro x y hx hy hlt
  obtain ⟨hne, hnames⟩ := names_of_file hn hdirectory ((Node.mem_files_iff hn).mp hx)
  obtain ⟨hne', hnames'⟩ := names_of_file hn hdirectory ((Node.mem_files_iff hn).mp hy)
  exact Path.compare_join hroot hne hnames hne' hnames' hlt

/-! ## Selection -/

theorem supports_iff {p : Path} :
    TypeScript.supports p = true ↔ ∃ ext ∈ ["ts", "mts", "cts", "tsx"], p.extension? = some ext := by
  unfold TypeScript.supports
  cases p.extension? with
  | none => simp
  | some ext => simp [TypeScript.plainExtensions, TypeScript.markupExtensions, or_assoc]

/-- A path under the root is selected if it is one of a TypeScript file, some glob includes it and none excludes it. -/
theorem FileFilter.selects_iff {f : FileFilter} {p : Path} : f.selects p = true ↔
    (∃ ext ∈ ["ts", "mts", "cts", "tsx"], p.extension? = some ext) ∧ (∃ g ∈ f.including, g.accepts p.text = true) ∧
      ∀ g ∈ f.excluding, g.accepts p.text = false := by
  rw [FileFilter.selects, Bool.and_eq_true, Bool.and_eq_true, supports_iff]
  simp [and_assoc]

end

/-! ## Reading the files -/

namespace Workspace

variable {parse : Parser} {found : List FoundFile} {units : List SourceUnit}

theorem readFile_eq_ok {x : FoundFile} {u : SourceUnit} (h : readFile parse x = .ok u) :
    x.path = u.path ∧ String.fromUTF8? x.content = some u.text ∧
      ∃ text, u = TypeScript.readUnit x.path x.relativePath text parse := by
  unfold readFile at h
  split at h
  · rename_i text htext
    obtain rfl := Except.ok.inj h
    exact ⟨rfl, htext, text, rfl⟩
  · cases h

theorem readFiles_spec (h : (readFiles parse found).1 = .ok units) :
    found.map FoundFile.path = units.map SourceUnit.path ∧ ∀ u ∈ units, ∃ x ∈ found, readFile parse x = .ok u := by
  induction found generalizing units with
  | nil =>
    obtain rfl := Except.ok.inj h
    exact ⟨rfl, by simp⟩
  | cons x found ih =>
    unfold readFiles at h
    cases hx : readFile parse x with
    | error failure =>
      rw [hx] at h
      cases h
    | ok u =>
      cases hrest : (readFiles parse found).1 with
      | error failure => simp [hx, hrest, Except.map] at h
      | ok us =>
        have hunits : u :: us = units := by simpa [hx, hrest, Except.map] using h
        obtain ⟨hpaths, hread⟩ := ih hrest
        rw [← hunits]
        refine ⟨?_, ?_⟩
        · rw [List.map_cons, List.map_cons, hpaths, (readFile_eq_ok hx).1]
        · intro v hv
          rcases List.mem_cons.mp hv with rfl | hv
          · exact ⟨x, List.mem_cons_self, hx⟩
          · obtain ⟨y, hy, hread⟩ := hread v hv
            exact ⟨y, List.mem_cons_of_mem x hy, hread⟩

end Workspace

/-- Units that stand in path order already keep their order in a project. -/
theorem Project.units_ofUnits {units : List SourceUnit} (root : Path)
    (h : (units.map SourceUnit.path).Pairwise fun p q => p.compare q = .lt) : (ofUnits root units).units = units := by
  refine List.mergeSort_of_pairwise ((List.pairwise_map.mp h).imp ?_)
  intro u v hlt
  rw [SourceUnit.le, Path.le, hlt]
  rfl

/-- Discovery below a directory finds exactly the regular files that its tree holds at some names and whose path under
the root is one of TypeScript, included by a glob and excluded by none. Each has the path under the root that is left of
its path, they come strictly increasing in the order of paths, and the project of the units that are read from them has
these in the same order. -/
theorem discover_exact {f : FileFilter} {d : NamedDisk} {root : Path} {es : List (String × Node)}
    (hroot : d.find? root = some (.directory es)) :
    ∃ found, discover f d.toDisk root = .ok found ∧
      (∀ x, x ∈ found ↔
        (∃ names, (Node.directory es).find? names = some (.file x.content) ∧
          x.relativePath = ⟨String.intercalate "/" names⟩ ∧ x.path = root.join x.relativePath) ∧
        (∃ ext ∈ ["ts", "mts", "cts", "tsx"], x.relativePath.extension? = some ext) ∧
        (∃ g ∈ f.including, g.accepts x.relativePath.text = true) ∧
        ∀ g ∈ f.excluding, g.accepts x.relativePath.text = false) ∧
      (∀ x ∈ found, Path.stripRoot? root x.path = some x.relativePath) ∧
      (found.Pairwise fun x y => x.path.compare y.path = .lt) ∧
      ∀ parse units, (Workspace.readFiles parse found).1 = .ok units → (Project.ofUnits root units).units = units := by
  obtain ⟨htext, hwell⟩ := d.root_of_find? hroot
  have hincreasing := (pairwise_filesBelow htext hwell rfl).filter fun x => f.selects x.relativePath
  refine ⟨_, by rw [discover, hroot], ?_, ?_, hincreasing, ?_⟩
  · intro x
    rw [List.mem_filter, mem_filesBelow_iff hwell, FileFilter.selects_iff]
  · intro x hx
    obtain ⟨names, hfile, hrelative, hpath⟩ := (mem_filesBelow_iff hwell).mp (List.mem_filter.mp hx).1
    obtain ⟨hne, hnames⟩ := names_of_file hwell rfl hfile
    rw [hpath, hrelative]
    exact Path.stripRoot?_join htext hne hnames
  · intro parse units hunits
    refine Project.units_ofUnits root ?_
    rw [← (Workspace.readFiles_spec hunits).1]
    exact List.pairwise_map.mpr hincreasing

/-- A directory next to files whose names begin like its own, a link and a file that is excluded. -/
def siblingEntries : List (String × Node) :=
  [("a.ts", .file "1".toUTF8), ("l.ts", .link ⟨"a.ts"⟩), ("a-b.ts", .file "2".toUTF8), ("b.d.ts", .file "3".toUTF8),
    ("a", .directory [("z.ts", .file "4".toUTF8)])]

def siblingDisk : NamedDisk where
  top := .directory [("p", .directory siblingEntries)]
  workingDirectory := []
  isWellNamed := by decide +kernel

/-- The files of TypeScript without those of declarations. -/
def siblingFilter : FileFilter :=
  ⟨[(Glob.ofTokens true [.leadingDirectories, .anyMany, .literal '.', .literal 't', .literal 's']).matcher],
    [(Glob.ofTokens true
      [.leadingDirectories, .anyMany, .literal '.', .literal 'd', .literal '.', .literal 't', .literal 's']).matcher]⟩

/-- A file in the directory is found, one that is excluded is not. -/
theorem discover_exact_siblings : siblingDisk.find? ⟨"./p"⟩ = some (.directory siblingEntries) ∧
    ∃ found, discover siblingFilter siblingDisk.toDisk ⟨"./p"⟩ = .ok found ∧
      ⟨⟨"./p/a/z.ts"⟩, ⟨"a/z.ts"⟩, "4".toUTF8⟩ ∈ found ∧ (∀ x ∈ found, x.relativePath ≠ ⟨"b.d.ts"⟩) ∧
      found.Pairwise fun x y => x.path.compare y.path = .lt := by
  have hroot : siblingDisk.find? ⟨"./p"⟩ = some (.directory siblingEntries) := by
    have hcomponents : Path.components ⟨"./p"⟩ = [.current, .name "p"] := by decide
    have hplace : siblingDisk.locate? ⟨"./p"⟩ = some ["p"] := by
      simp [Disk.locate?, siblingDisk, Node.resolve, hcomponents, Node.find?]
    refine Option.bind_eq_some_iff.mpr ⟨["p"], hplace, ?_⟩
    exact Option.bind_eq_some_iff.mpr ⟨_, rfl, by simp [Node.isDirectory]⟩
  obtain ⟨found, hfound, hmem, -, hincreasing, -⟩ := discover_exact (f := siblingFilter) hroot
  refine ⟨hroot, found, hfound, (hmem _).mpr ?_, ?_, hincreasing⟩
  · exact ⟨⟨["a", "z.ts"], rfl, by decide +kernel, by decide +kernel⟩, by decide +kernel, by decide +kernel,
      by decide +kernel⟩
  · intro x hx hname
    obtain ⟨-, -, -, hexcluding⟩ := (hmem x).mp hx
    rw [hname] at hexcluding
    exact absurd hexcluding (by decide +kernel)

end FieldInjection
