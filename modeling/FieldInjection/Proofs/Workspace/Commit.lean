import Mathlib
import FieldInjection.Migration.Workspace
import FieldInjection.Proofs.Edit.Files
import FieldInjection.Proofs.FileTree.Reading
import FieldInjection.Proofs.Lists

/-!
# Commits

A commit renders every touched file before it puts the first of them in place. So it fails exactly if some touched file
is not in the project, does not stand on the disk as it was loaded or has conflicting edits, and then the disk stays
as it was; else every touched file has its new text and nothing else has changed (`commit_all_or_nothing`). Touched
paths that lead to one entry over links write to it in turn, and the last of them stays.
-/

namespace FieldInjection.Workspace

section
variable {p : Project} {log : EditLog} {d d' : Disk} {file : Path} {files : List Path}
  {x : SourceUnit × String} {xs : List (SourceUnit × String)}

theorem exists_error_iff {α : Type} {answer : Except Failure α} :
    (∃ failure, answer = .error failure) ↔ ¬ ∃ a, answer = .ok a := by
  cases answer <;> simp

theorem unit?_congr (p : Project) {file file' : Path} (h : file.same file' = true) : p.unit? file = p.unit? file' := by
  unfold Project.unit?
  congr 1
  funext u
  rw [Path.same_comm, Path.same_congr h, Path.same_comm]

theorem same_of_unit? {u : SourceUnit} (h : p.unit? file = some u) : u.path.same file = true := by
  have hfound := List.find?_some h
  exact hfound

/-! ## Rendering -/

theorem renderFile_eq_ok_iff : renderFile p log d file = .ok x ↔
    p.unit? file = some x.1 ∧ d.readText? x.1.path = some x.1.text ∧ log.apply file x.1.text = .ok x.2 := by
  obtain ⟨u, after⟩ := x
  unfold renderFile
  constructor
  · intro h
    split at h
    · cases h
    · rename_i v hunit
      split at h
      · cases h
      · rename_i onDisk hread
        split at h
        · cases h
        · rename_i hchanged
          split at h
          · cases h
          · rename_i after' happly
            cases h
            have htext : onDisk = u.text := by simpa using hchanged
            exact ⟨hunit, htext ▸ hread, happly⟩
  · rintro ⟨hunit, hread, happly⟩
    simp [hunit, hread, happly]

theorem renderFiles_eq_mapM (p : Project) (log : EditLog) (d : Disk) (files : List Path) :
    renderFiles p log d files = files.mapM (renderFile p log d) := by
  induction files with
  | nil => rfl
  | cons file files ih =>
    rw [renderFiles, List.mapM_cons, ih]
    cases renderFile p log d file with
    | error failure => rfl
    | ok x =>
      cases files.mapM (renderFile p log d) <;> rfl

/-- Rendering succeeds with the texts of all files. -/
theorem renderFiles_eq_ok_iff : renderFiles p log d files = .ok xs ↔
    List.Forall₂ (fun file x => renderFile p log d file = .ok x) files xs := by
  rw [renderFiles_eq_mapM, mapM_eq_ok_iff]

/-- A file whose edits can be committed. -/
def IsCommittable (p : Project) (log : EditLog) (d : Disk) (file : Path) : Prop :=
  ∃ u, p.unit? file = some u ∧ d.readText? u.path = some u.text ∧ ∃ after, log.apply file u.text = .ok after

/-! ## Putting in place -/

/-- What replacing files one after the other has done to a disk. -/
structure HasReplaced (d d' : Disk) (xs : List (SourceUnit × String)) : Prop where
  differsAt : d.DiffersAt d' fun q => ∃ x ∈ xs, d.locateEntry? x.1.path = some q
  isFile : ∀ x ∈ xs, ∀ q, d.locateEntry? x.1.path = some q → ∃ content, d'.top.itemAt? q = some (.file content)
  last : ∀ front x back q, xs = front ++ x :: back → d.locateEntry? x.1.path = some q →
    (∀ y ∈ back, d.locateEntry? y.1.path ≠ some q) → d'.top.itemAt? q = some (.file x.2.toUTF8)

theorem HasReplaced.nil (d : Disk) : HasReplaced d d [] := by
  refine ⟨⟨rfl, fun q _ => rfl, ?_⟩, ?_, ?_⟩
  · rintro q ⟨x, hx, -⟩
    cases hx
  · intro x hx
    cases hx
  · intro front x back q hsplit
    exact absurd hsplit (by simp)

/-- One more file is replaced. It may be the same entry as one before it, and then its text is the one that stays. -/
theorem HasReplaced.replace {content : ByteArray} (h : HasReplaced d d' xs) (hcontent : d.read? x.1.path = some content) :
    HasReplaced d (d'.replace x.1.path x.2) (xs ++ [x]) := by
  obtain ⟨place, hplace, -, hdead⟩ := Disk.exists_entry_of_read? hcontent
  have hfiles : ∀ q, (∃ y ∈ xs, d.locateEntry? y.1.path = some q) →
      ∃ content, d'.top.itemAt? q = some (.file content) := by
    rintro q ⟨y, hy, hq⟩
    exact h.isFile y hy q hq
  obtain ⟨hdirectory, hself, hother⟩ := h.differsAt.replace hfiles hcontent hplace x.2
  refine ⟨⟨hdirectory.trans h.differsAt.workingDirectory_eq, ?_, ?_⟩, ?_, ?_⟩
  · -- an entry of none of the files
    intro q hq
    have hne : q ≠ place := by
      rintro rfl
      exact hq ⟨x, List.mem_append_right _ (List.mem_singleton_self x), hplace⟩
    rw [hother q hne]
    refine h.differsAt.itemAt?_eq q ?_
    rintro ⟨y, hy, hyq⟩
    exact hq ⟨y, List.mem_append_left _ hy, hyq⟩
  · -- the entries of the files hold no others
    rintro q ⟨y, hy, hq⟩
    rcases List.mem_append.mp hy with hy | hy
    · exact h.differsAt.isDeadEnd q ⟨y, hy, hq⟩
    · obtain rfl := List.mem_singleton.mp hy
      obtain rfl := Option.some.inj (hplace.symm.trans hq)
      exact hdead
  · -- a file stands at each of their entries
    intro y hy q hq
    by_cases hne : q = place
    · subst hne
      exact ⟨_, hself⟩
    · rw [hother q hne]
      rcases List.mem_append.mp hy with hy | hy
      · exact h.isFile y hy q hq
      · obtain rfl := List.mem_singleton.mp hy
        exact absurd (Option.some.inj (hq.symm.trans hplace)) hne
  · intro front y back q hsplit hq hback
    obtain rfl | ⟨back, z, rfl⟩ := List.eq_nil_or_concat' back
    · -- the file itself
      obtain ⟨-, heq⟩ := List.append_inj' hsplit rfl
      obtain rfl := (List.cons.inj heq).1
      obtain rfl := Option.some.inj (hplace.symm.trans hq)
      exact hself
    · -- a file before it, and the last file is another entry
      rw [← List.cons_append, ← List.append_assoc] at hsplit
      obtain ⟨rfl, heq⟩ := List.append_inj' hsplit rfl
      obtain rfl := (List.cons.inj heq).1
      have hne : q ≠ place := by
        rintro rfl
        exact hback x (List.mem_append_right _ (List.mem_singleton_self x)) hplace
      rw [hother q hne]
      refine h.last front y back q rfl hq ?_
      intro z hz
      exact hback z (List.mem_append_left _ hz)

theorem replaceAll_hasReplaced (hread : ∀ x ∈ xs, ∃ content, d.read? x.1.path = some content) :
    HasReplaced d (replaceAll d xs) xs := by
  -- the files are replaced from the first to the last, and so the last one is taken off in each step
  induction xs using List.reverseRecOn with
  | nil => exact .nil d
  | append_singleton xs x ih =>
    obtain ⟨content, hcontent⟩ := hread x (List.mem_append_right _ (List.mem_singleton_self x))
    have hstep : replaceAll d (xs ++ [x]) = (replaceAll d xs).replace x.1.path x.2 := by
      rw [replaceAll, List.foldl_append]
      rfl
    rw [hstep]
    exact (ih fun y hy => hread y (List.mem_append_left _ hy)).replace hcontent

/-! ## Commits -/

theorem files_of_isEmpty (h : log.isEmpty = true) : log.files = [] := by
  have hedits : log.edits = [] := List.isEmpty_iff.mp h
  rw [EditLog.files, hedits]
  rfl

/-- An empty log is no case of its own. -/
theorem commit_eq (p : Project) (log : EditLog) (d : Disk) : commit p log d =
    match renderFiles p log d log.files with
    | .error failure => ⟨.error failure, d, []⟩
    | .ok xs => ⟨.ok (xs.map fun x => x.1.path), replaceAll d xs, xs.map fun x => .fileReplaced x.1.path⟩ := by
  unfold commit
  split
  · rename_i hempty
    rw [files_of_isEmpty hempty]
    rfl
  · rfl

theorem state_of_commit_error {failure : Failure} (h : (commit p log d).answer = .error failure) :
    (commit p log d).state = d := by
  rw [commit_eq] at h ⊢
  cases hfiles : renderFiles p log d log.files with
  | error failure' => rfl
  | ok xs =>
    rw [hfiles] at h
    cases h

theorem exists_rendered_of_commit {written : List Path} (h : (commit p log d).answer = .ok written) :
    ∃ xs, List.Forall₂ (fun file x => renderFile p log d file = .ok x) log.files xs ∧
      written = xs.map (fun x => x.1.path) ∧ (commit p log d).state = replaceAll d xs := by
  rw [commit_eq] at h ⊢
  cases hfiles : renderFiles p log d log.files with
  | error failure =>
    rw [hfiles] at h
    cases h
  | ok xs =>
    rw [hfiles] at h
    exact ⟨xs, renderFiles_eq_ok_iff.mp hfiles, (Except.ok.inj h).symm, rfl⟩

theorem isCommittable_iff : IsCommittable p log d file ↔ ∃ x, renderFile p log d file = .ok x := by
  constructor
  · rintro ⟨u, hunit, hread, after, happly⟩
    exact ⟨(u, after), renderFile_eq_ok_iff.mpr ⟨hunit, hread, happly⟩⟩
  · rintro ⟨x, hx⟩
    obtain ⟨hunit, hread, happly⟩ := renderFile_eq_ok_iff.mp hx
    exact ⟨x.1, hunit, hread, x.2, happly⟩

theorem isCommittable_congr {file' : Path} (h : file.same file' = true) :
    IsCommittable p log d file ↔ IsCommittable p log d file' := by
  unfold IsCommittable
  rw [unit?_congr p h]
  simp only [EditLog.apply_congr log h]

/-- A commit succeeds exactly if all files with edits can be committed. -/
theorem commit_isOk_iff :
    (∃ written, (commit p log d).answer = .ok written) ↔ ∀ e ∈ log.edits, IsCommittable p log d e.file := by
  constructor
  · rintro ⟨written, h⟩ e he
    obtain ⟨xs, hxs, -⟩ := exists_rendered_of_commit h
    obtain ⟨f, hf, hsame⟩ := EditLog.exists_mem_files he
    obtain ⟨x, -, hx⟩ := exists_of_mem_forall₂ hxs hf
    exact (isCommittable_congr hsame).mp (isCommittable_iff.mpr ⟨x, hx⟩)
  · intro h
    have hall : ∀ f ∈ log.files, ∃ x, renderFile p log d f = .ok x := by
      intro f hf
      obtain ⟨e, he, rfl⟩ := EditLog.exists_edit_of_mem_files hf
      exact isCommittable_iff.mp (h e he)
    obtain ⟨xs, hxs⟩ := exists_forall₂ hall
    rw [commit_eq, renderFiles_eq_ok_iff.mpr hxs]
    exact ⟨_, rfl⟩

/-- What a commit that succeeds has done. -/
structure HasCommitted (p : Project) (log : EditLog) (d : Disk) (written : List Path) (d' : Disk) : Prop where
  ordered : written.Pairwise fun f g => f.compare g = .lt
  isTouched : ∀ f ∈ written, ∃ e ∈ log.edits, e.file.same f = true
  isWritten : ∀ e ∈ log.edits, ∃ f ∈ written, f.same e.file = true
  held : ∀ f ∈ written, ∃ u, p.unit? f = some u ∧ u.path = f ∧ d.readText? f = some u.text
  /-- Of paths that lead to one entry, the last stays. -/
  holds : ∀ front f back, written = front ++ f :: back → (∀ g ∈ back, d.locateEntry? g ≠ d.locateEntry? f) →
    ∃ u after, p.unit? f = some u ∧ log.apply f u.text = .ok after ∧ d'.readText? f = some after
  unchanged : ∀ place, (∀ f ∈ written, d.locateEntry? f ≠ some place) →
    d'.top.itemAt? place = d.top.itemAt? place
  workingDirectory_eq : d'.workingDirectory = d.workingDirectory
  /-- What was changed is not committed to again. -/
  again : (∃ f ∈ written, d'.readText? f ≠ d.readText? f) →
    ∃ failure, (commit p log d').answer = .error failure ∧ (commit p log d').state = d'

/-- The paths of the rendered files stand in path order, as the files of the log do. -/
theorem pairwise_rendered (hxs : List.Forall₂ (fun file x => renderFile p log d file = .ok x) log.files xs) :
    (xs.map fun x => x.1.path).Pairwise fun f g => f.compare g = .lt := by
  have hcomponents : log.files.map Path.components = (xs.map fun x => x.1.path).map Path.components := by
    rw [← List.forall₂_eq_eq_eq, List.forall₂_map_left_iff, List.map_map, List.forall₂_map_right_iff]
    refine hxs.imp ?_
    intro file x hx
    exact (Path.same_iff.mp (same_of_unit? (renderFile_eq_ok_iff.mp hx).1)).symm
  have hfiles : (log.files.map Path.components).Pairwise fun f g => Path.compareComponents f g = .lt :=
    List.pairwise_map.mpr log.pairwise_files
  rw [hcomponents] at hfiles
  exact List.pairwise_map.mp hfiles

theorem readText?_of_last (h : HasReplaced d d' xs) {front back : List (SourceUnit × String)}
    (hsplit : xs = front ++ x :: back) (hread : d.readText? x.1.path = some x.1.text)
    (hback : ∀ y ∈ back, d.locateEntry? y.1.path ≠ d.locateEntry? x.1.path) :
    d'.readText? x.1.path = some x.2 := by
  obtain ⟨content, hcontent, -⟩ := Option.bind_eq_some_iff.mp hread
  obtain ⟨place, hplace, -⟩ := Disk.exists_entry_of_read? hcontent
  rw [hplace] at hback
  have hnew := h.last front x back place hsplit hplace hback
  exact Disk.readText?_of_read? (h.differsAt.read?_eq hcontent hplace hnew)

theorem rendered_spec (hxs : List.Forall₂ (fun file x => renderFile p log d file = .ok x) log.files xs) :
    ∀ x ∈ xs, p.unit? x.1.path = some x.1 ∧ d.readText? x.1.path = some x.1.text ∧
      log.apply x.1.path x.1.text = .ok x.2 ∧ ∃ e ∈ log.edits, e.file.same x.1.path = true := by
  intro x hx
  obtain ⟨file, hfile, hrender⟩ := exists_of_mem_forall₂_right hxs hx
  obtain ⟨hunit, hread, happly⟩ := renderFile_eq_ok_iff.mp hrender
  have hsame := same_of_unit? hunit
  obtain ⟨e, he, rfl⟩ := EditLog.exists_edit_of_mem_files hfile
  rw [unit?_congr p hsame, EditLog.apply_congr log hsame]
  refine ⟨hunit, hread, happly, e, he, ?_⟩
  rw [Path.same_comm]
  exact hsame

theorem hasReplaced_of_rendered (hxs : List.Forall₂ (fun file x => renderFile p log d file = .ok x) log.files xs) :
    HasReplaced d (replaceAll d xs) xs := by
  refine replaceAll_hasReplaced ?_
  intro x hx
  obtain ⟨content, hcontent, -⟩ := Option.bind_eq_some_iff.mp (rendered_spec hxs x hx).2.1
  exact ⟨content, hcontent⟩

theorem hasCommitted_of_rendered (hxs : List.Forall₂ (fun file x => renderFile p log d file = .ok x) log.files xs) :
    HasCommitted p log d (xs.map fun x => x.1.path) (replaceAll d xs) := by
  have hrendered := rendered_spec hxs
  have hreplaced := hasReplaced_of_rendered hxs
  refine ⟨pairwise_rendered hxs, ?_, ?_, ?_, ?_, ?_, hreplaced.differsAt.workingDirectory_eq, ?_⟩
  · intro f hf
    obtain ⟨x, hx, rfl⟩ := List.mem_map.mp hf
    exact (hrendered x hx).2.2.2
  · intro e he
    obtain ⟨file, hfile, hsame⟩ := EditLog.exists_mem_files he
    obtain ⟨x, hx, hrender⟩ := exists_of_mem_forall₂ hxs hfile
    refine ⟨x.1.path, List.mem_map_of_mem hx, ?_⟩
    rw [Path.same_congr (same_of_unit? (renderFile_eq_ok_iff.mp hrender).1)]
    exact hsame
  · intro f hf
    obtain ⟨x, hx, rfl⟩ := List.mem_map.mp hf
    obtain ⟨hunit, hread, -⟩ := hrendered x hx
    exact ⟨x.1, hunit, rfl, hread⟩
  · intro front f back hsplit hback
    obtain ⟨front, xs', rfl, rfl, hcons⟩ := List.map_eq_append_iff.mp hsplit
    obtain ⟨x, back, rfl, rfl, rfl⟩ := List.map_eq_cons_iff.mp hcons
    have hx : x ∈ front ++ x :: back := List.mem_append_right _ List.mem_cons_self
    obtain ⟨hunit, hread, happly, -⟩ := hrendered x hx
    refine ⟨x.1, x.2, hunit, happly, readText?_of_last hreplaced rfl hread ?_⟩
    intro y hy
    exact hback y.1.path (List.mem_map_of_mem hy)
  · intro place hplace
    refine hreplaced.differsAt.itemAt?_eq place ?_
    rintro ⟨x, hx, hlocate⟩
    exact hplace x.1.path (List.mem_map_of_mem hx) hlocate
  · rintro ⟨f, hf, hchanged⟩
    obtain ⟨x, hx, rfl⟩ := List.mem_map.mp hf
    obtain ⟨hunit', hread', -, e, he, hsame⟩ := hrendered x hx
    have hfails : ¬ ∃ written, (commit p log (replaceAll d xs)).answer = .ok written := by
      intro h
      -- the file would have to read as it was loaded
      obtain ⟨u, hunit, hread, -⟩ := (isCommittable_congr hsame).mp (commit_isOk_iff.mp h e he)
      obtain rfl := Option.some.inj (hunit.symm.trans hunit')
      exact hchanged (hread.trans hread'.symm)
    obtain ⟨failure, hfailure⟩ := exists_error_iff.mpr hfails
    exact ⟨failure, hfailure, state_of_commit_error hfailure⟩

/--
**Commits are all or nothing**: a commit fails exactly if some file with edits is not in the project, does not stand on
the disk as it was loaded or has conflicting edits. Then the disk is as it was before. Else every file with edits held
what was loaded and holds its new text, and every other entry of the disk is as it was before.
-/
theorem commit_all_or_nothing (p : Project) (log : EditLog) (d : Disk) :
    ((∃ failure, (commit p log d).answer = .error failure) ↔
      ∃ e ∈ log.edits, ¬ IsCommittable p log d e.file) ∧
    (∀ failure, (commit p log d).answer = .error failure → (commit p log d).state = d) ∧
    ∀ written, (commit p log d).answer = .ok written → HasCommitted p log d written (commit p log d).state := by
  refine ⟨?_, fun failure h => state_of_commit_error h, ?_⟩
  · rw [exists_error_iff, commit_isOk_iff]
    simp
  · intro written h
    obtain ⟨xs, hxs, rfl, hstate⟩ := exists_rendered_of_commit h
    rw [hstate]
    exact hasCommitted_of_rendered hxs

/-- A directory with a file, and a link to it where another directory was. -/
def linkedDisk : Disk where
  top := .directory [("e", .directory [("a.ts", .file "x".toUTF8)]), ("d", .link ⟨"e"⟩)]
  workingDirectory := []

def linkedUnit (path : Path) : SourceUnit := ⟨path, path, "x", [], [], false⟩

/-- The files of both directories, as they were loaded before. -/
def linkedProject : Project := ⟨⟨"."⟩, [linkedUnit ⟨"d/a.ts"⟩, linkedUnit ⟨"e/a.ts"⟩]⟩

def linkedLog : EditLog where
  edits := [
    ⟨⟨"d/a.ts"⟩, .addNamedImport "m" "n", .insert 0 "1"⟩,
    ⟨⟨"e/a.ts"⟩, .addNamedImport "m" "n", .insert 0 "2"⟩]

theorem read?_linkedDisk : ∀ f ∈ ([⟨"d/a.ts"⟩, ⟨"e/a.ts"⟩] : List Path),
    linkedDisk.read? f = some "x".toUTF8 ∧ linkedDisk.locateEntry? f = some ["e", "a.ts"] := by
  have hd : linkedDisk.top.resolve maxLinks [] (Path.components ⟨"d/a.ts"⟩) = some ["e", "a.ts"] := by decide_cbv
  have he : linkedDisk.top.resolve maxLinks [] (Path.components ⟨"e/a.ts"⟩) = some ["e", "a.ts"] := by decide_cbv
  have hread : ∀ f : Path, f.text ≠ "" → f.endsLikeDirectory = false →
      linkedDisk.top.resolve maxLinks [] f.components = some ["e", "a.ts"] →
      linkedDisk.read? f = some "x".toUTF8 := by
    intro f htext hend hway
    exact Disk.read?_eq_some_iff.mpr ⟨htext, hend, ["e", "a.ts"], Node.leads_of_resolve hway, rfl⟩
  simp only [List.mem_cons, List.not_mem_nil, or_false, forall_eq_or_imp, forall_eq]
  exact ⟨⟨hread _ (by decide) (by decide) hd, by decide_cbv⟩, hread _ (by decide) (by decide) he, by decide_cbv⟩

/-- Where two touched paths lead to one entry, the first of them does not hold its new text. -/
theorem commit_linked :
    linkedDisk.readText? ⟨"d/a.ts"⟩ = some "x" ∧ linkedLog.apply ⟨"d/a.ts"⟩ "x" = .ok "1x" ∧
    (commit linkedProject linkedLog linkedDisk).answer = .ok [⟨"d/a.ts"⟩, ⟨"e/a.ts"⟩] ∧
    (commit linkedProject linkedLog linkedDisk).state.readText? ⟨"d/a.ts"⟩ = some "2x" := by
  obtain ⟨hreadFirst, hplaceFirst⟩ := read?_linkedDisk ⟨"d/a.ts"⟩ (by simp)
  obtain ⟨hreadSecond, hplaceSecond⟩ := read?_linkedDisk ⟨"e/a.ts"⟩ (by simp)
  have hfirst : linkedLog.apply ⟨"d/a.ts"⟩ "x" = .ok "1x" := by decide +kernel
  have hsecond : linkedLog.apply ⟨"e/a.ts"⟩ "x" = .ok "2x" := by decide +kernel
  obtain ⟨xs, hxs⟩ : ∃ xs, xs = [(linkedUnit ⟨"d/a.ts"⟩, "1x"), (linkedUnit ⟨"e/a.ts"⟩, "2x")] := ⟨_, rfl⟩
  have hrendered : renderFiles linkedProject linkedLog linkedDisk linkedLog.files = .ok xs := by
    have hfiles : linkedLog.files = [⟨"d/a.ts"⟩, ⟨"e/a.ts"⟩] := by decide +kernel
    rw [hfiles, renderFiles_eq_ok_iff, hxs]
    refine .cons (renderFile_eq_ok_iff.mpr ⟨?_, Disk.readText?_of_read? hreadFirst, hfirst⟩)
      (.cons (renderFile_eq_ok_iff.mpr ⟨?_, Disk.readText?_of_read? hreadSecond, hsecond⟩) .nil)
    · decide +kernel
    · decide +kernel
  -- the entry of both paths holds the text that came last
  have hreplaced : HasReplaced linkedDisk (replaceAll linkedDisk xs) xs := by
    refine replaceAll_hasReplaced ?_
    rw [hxs]
    simp only [List.mem_cons, List.not_mem_nil, or_false, forall_eq_or_imp, forall_eq]
    exact ⟨⟨_, hreadFirst⟩, _, hreadSecond⟩
  have hlast := hreplaced.last [(linkedUnit ⟨"d/a.ts"⟩, "1x")] _ [] _ hxs hplaceSecond (by simp)
  have hread := hreplaced.differsAt.read?_eq hreadFirst hplaceFirst hlast
  rw [commit_eq, hrendered]
  refine ⟨Disk.readText?_of_read? hreadFirst, hfirst, ?_, Disk.readText?_of_read? hread⟩
  rw [hxs]
  rfl

end

end FieldInjection.Workspace
