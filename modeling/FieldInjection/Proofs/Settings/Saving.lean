import FieldInjection.Proofs.FileTree.Writing
import FieldInjection.Proofs.Settings.Layers
import FieldInjection.Proofs.Toml.Documents
import FieldInjection.Settings.Loading

/-!
# Saved settings are loaded

In a form that keeps to what is counted on of it, a file of settings says all of them over the defaults, and without a
variable in the environment it has the last word. So settings that are saved, valid or not, are loaded as they were
(`loadSettings_save`). TOML documents are such a form (`toml_isFaithful`): settings are written in three sections, and
what is read from these names every setting (`read?_toToml`).
-/

namespace FieldInjection

open Toml

/-! ## The three sections -/

def ProjectSettings.written (s : ProjectSettings) : WrittenSection :=
  ⟨"project", [⟨"root", writeText s.root.text, .text s.root.text⟩,
    ⟨"include", writeList s.including, .list (s.including.map .text)⟩,
    ⟨"exclude", writeList s.excluding, .list (s.excluding.map .text)⟩]⟩

def MigrationSettings.written (s : MigrationSettings) : WrittenSection :=
  ⟨"migration", [⟨"class_files", writeText s.classFiles, .text s.classFiles⟩,
    ⟨"class_name_pattern", writeText s.classNamePattern, .text s.classNamePattern⟩,
    ⟨"accessor_module", writeText s.accessorModule, .text s.accessorModule⟩,
    ⟨"accessor_function", writeText s.accessorFunction, .text s.accessorFunction⟩,
    ⟨"dry_run", writeBoolean s.isDryRun, .boolean s.isDryRun⟩]⟩

def LoggingSettings.written (s : LoggingSettings) : WrittenSection :=
  ⟨"logging", [⟨"level", writeText s.level, .text s.level⟩,
    ⟨"json_format", writeBoolean s.asJson, .boolean s.asJson⟩]⟩

/-- All that is written for settings. -/
def Settings.written (s : Settings) : List WrittenSection :=
  [s.project.written, s.migration.written, s.logging.written]

section

variable {s : Settings} {d d' : Disk} {path : Path} {u : Surroundings} {format : SettingsFormat}

theorem toToml_eq (s : Settings) : s.toToml = String.ofList (writeSections s.written) := by
  simp [Settings.toToml, ProjectSettings.toToml, MigrationSettings.toToml, LoggingSettings.toToml, Settings.written,
    ProjectSettings.written, MigrationSettings.written, LoggingSettings.written, writeSections, WrittenSection.write,
    writeMembers]

theorem isReadable_project (s : ProjectSettings) : s.written.IsReadable where
  name := (by decide : IsBareKey "project")
  keys := by simp [ProjectSettings.written]
  members := by
    have hkeys : ∀ key ∈ ["root", "include", "exclude"], IsBareKey key := by decide
    simp only [List.forall_mem_cons] at hkeys
    simp [ProjectSettings.written, hkeys, readsAs_writeText, readsAs_writeList]

theorem isReadable_migration (s : MigrationSettings) : s.written.IsReadable where
  name := (by decide : IsBareKey "migration")
  keys := by simp [MigrationSettings.written]
  members := by
    have hkeys : ∀ key ∈ ["class_files", "class_name_pattern", "accessor_module", "accessor_function", "dry_run"],
        IsBareKey key := by decide
    simp only [List.forall_mem_cons] at hkeys
    simp [MigrationSettings.written, hkeys, readsAs_writeText, readsAs_writeBoolean]

theorem isReadable_logging (s : LoggingSettings) : s.written.IsReadable where
  name := (by decide : IsBareKey "logging")
  keys := by simp [LoggingSettings.written]
  members := by
    have hkeys : ∀ key ∈ ["level", "json_format"], IsBareKey key := by decide
    simp only [List.forall_mem_cons] at hkeys
    simp [LoggingSettings.written, hkeys, readsAs_writeText, readsAs_writeBoolean]

/-- What is written for settings is read as a layer that says all of them. -/
theorem read?_toToml (s : Settings) : Toml.read? s.toToml = some s.toSetting := by
  have hsections : s.toSetting = .table (s.written.map WrittenSection.setting) := rfl
  rw [toToml_eq, hsections]
  refine read?_writeSections ?_ (by
    simp [Settings.written, ProjectSettings.written, MigrationSettings.written, LoggingSettings.written])
  simp [Settings.written, isReadable_project, isReadable_migration, isReadable_logging]

/-! ## The settings of a layer -/

theorem toSetting_tells (s : Settings) : s.toSetting.Tells s := by
  simp [Setting.Tells, Settings.entries, Setting.at?, Setting.member?, Settings.toSetting, ProjectSettings.toSetting,
    MigrationSettings.toSetting, LoggingSettings.toSetting, List.lookup_cons]

theorem texts?_list (items : List String) : (Setting.list (items.map .text)).texts? = some items := by
  rw [Setting.texts?]
  induction items with
  | nil => rfl
  | cons item items ih => rw [List.map_cons, List.mapM_cons, ih]; rfl

section
variable {layer part value : Setting} {name key : String}

/-- What stands under two keys is a member of a member. -/
theorem exists_part (h : layer.at? [name, key] = some value) : ∃ part, layer.member? name = some part := by
  obtain ⟨part, hpart, -⟩ := Option.bind_eq_some_iff.mp h
  exact ⟨part, hpart⟩

theorem member?_part (hpart : layer.member? name = some part) (h : layer.at? [name, key] = some value) :
    part.member? key = some value := by
  rw [Setting.at?, hpart, Option.bind_some, Setting.at?] at h
  obtain ⟨value', hvalue, h⟩ := Option.bind_eq_some_iff.mp h
  rwa [← Option.some.inj h]

theorem table?_of_member? (h : part.member? key = some value) : part.table? = some part := by
  obtain ⟨members, rfl, -⟩ := Setting.exists_table_of_member? h
  rfl

theorem memberOr_of_member? {α : Type} (h : part.member? key = some value) (default : α) (read? : Setting → Option α) :
    part.memberOr key default read? = read? value := by
  rw [Setting.memberOr, h]

theorem ofSetting?_project {s : ProjectSettings} (hroot : part.member? "root" = some (.text s.root.text))
    (hinclude : part.member? "include" = some (.list (s.including.map .text)))
    (hexclude : part.member? "exclude" = some (.list (s.excluding.map .text))) :
    ProjectSettings.ofSetting? part = some s := by
  simp [ProjectSettings.ofSetting?, table?_of_member? hroot, memberOr_of_member? hroot, memberOr_of_member? hinclude,
    memberOr_of_member? hexclude, Setting.text?, texts?_list]

theorem ofSetting?_migration {s : MigrationSettings} (hfiles : part.member? "class_files" = some (.text s.classFiles))
    (hclasses : part.member? "class_name_pattern" = some (.text s.classNamePattern))
    (hmodule : part.member? "accessor_module" = some (.text s.accessorModule))
    (hfunction : part.member? "accessor_function" = some (.text s.accessorFunction))
    (hdry : part.member? "dry_run" = some (.boolean s.isDryRun)) : MigrationSettings.ofSetting? part = some s := by
  simp [MigrationSettings.ofSetting?, table?_of_member? hfiles, memberOr_of_member? hfiles,
    memberOr_of_member? hclasses, memberOr_of_member? hmodule, memberOr_of_member? hfunction,
    memberOr_of_member? hdry, Setting.text?, Setting.boolean?]

theorem ofSetting?_logging {s : LoggingSettings} (hlevel : part.member? "level" = some (.text s.level))
    (hjson : part.member? "json_format" = some (.boolean s.asJson)) : LoggingSettings.ofSetting? part = some s := by
  simp [LoggingSettings.ofSetting?, table?_of_member? hlevel, memberOr_of_member? hlevel, memberOr_of_member? hjson,
    Setting.text?, Setting.boolean?]

end

/-- A layer that says all settings leaves nothing to the defaults. -/
theorem ofSetting?_of_tells {layer : Setting} (h : layer.Tells s) : Settings.ofSetting? layer = some s := by
  simp only [Setting.Tells, Settings.entries, List.forall_mem_cons] at h
  obtain ⟨hroot, hinclude, hexclude, hfiles, hclasses, hmodule, hfunction, hdry, hlevel, hjson, -⟩ := h
  obtain ⟨project, hproject⟩ := exists_part hroot
  obtain ⟨migration, hmigration⟩ := exists_part hfiles
  obtain ⟨logging, hlogging⟩ := exists_part hlevel
  have hfirst := ofSetting?_project (member?_part hproject hroot) (member?_part hproject hinclude)
    (member?_part hproject hexclude)
  have hsecond := ofSetting?_migration (member?_part hmigration hfiles) (member?_part hmigration hclasses)
    (member?_part hmigration hmodule) (member?_part hmigration hfunction) (member?_part hmigration hdry)
  have hthird := ofSetting?_logging (member?_part hlogging hlevel) (member?_part hlogging hjson)
  simp [Settings.ofSetting?, table?_of_member? hproject, memberOr_of_member? hproject,
    memberOr_of_member? hmigration, memberOr_of_member? hlogging, hfirst, hsecond, hthird]

/-! ## Merging -/

theorem lookup_putMember (key name : String) (value : Setting) (members : List (String × Setting)) :
    (Setting.putMember name value members).lookup key = if key = name then some value else members.lookup key := by
  induction members with
  | nil =>
    rw [Setting.putMember, List.lookup_cons]
    split <;> simp_all
  | cons m members ih =>
    rw [Setting.putMember]
    split
    · rename_i hname
      subst hname
      rw [List.lookup_cons, List.lookup_cons]
      split <;> simp_all
    · rename_i hname
      rw [List.lookup_cons, List.lookup_cons, ih]
      split <;> simp_all

/-- Tables are merged key by key. -/
theorem lookup_mergeMembers (earlier later : List (String × Setting)) (key : String) :
    (Setting.mergeMembers earlier later).lookup key =
      Option.merge Setting.merge (earlier.lookup key) (later.lookup key) := by
  induction later with
  | nil =>
    rw [Setting.mergeMembers]
    cases earlier.lookup key <;> rfl
  | cons m later ih =>
    rw [Setting.mergeMembers, lookup_putMember, List.lookup_cons]
    split
    · rename_i hkey
      subst hkey
      rw [beq_self_eq_true]
      cases earlier.lookup m.1 <;> rfl
    · rename_i hkey
      rw [ih, beq_eq_false_iff_ne.mpr hkey]

theorem merge_of_not_isTable {earlier later : Setting} (h : (earlier.isTable && later.isTable) = false) :
    earlier.merge later = later := by
  cases later with
  | table members =>
    cases earlier with
    | table members' => cases h
    | _ => rfl
  | _ => rfl

/-! ## Saving and loading -/

/-- Without a variable for settings the environment says nothing. -/
theorem layer_eq_empty {assignments : List (String × String)}
    (h : ∀ e ∈ assignments, Environment.afterPrefix? e.1 = none) : Environment.layer assignments = .empty := by
  have hnone : assignments.filterMap Environment.settingOf? = [] := by
    rw [List.filterMap_eq_nil_iff]
    intro e he
    rw [Environment.settingOf?, h e he]
    rfl
  rw [Environment.layer, hnone]
  rfl

/-- TOML documents keep to what is counted on of a form of settings. -/
theorem toml_isFaithful : SettingsFormat.toml.IsFaithful where
  layerOf_tells := toSetting_tells
  extract?_eq := fun _ _ => ofSetting?_of_tells
  read?_write := by
    intro s
    refine ⟨s.toSetting, ?_, fun _ _ h _ => h⟩
    simp only [SettingsFormat.toml]
    exact read?_toToml s
  member?_merge := by
    intro earlier later key
    show (Setting.merge (.table earlier) (.table later)).member? key = _
    rw [Setting.merge, Setting.member?]
    exact lookup_mergeMembers earlier later key
  merge_eq := fun _ _ => merge_of_not_isTable
  environment_eq := fun _ => layer_eq_empty

/-- Settings can be saved at a path exactly if a file can be written there. -/
theorem save_eq_ok_iff : s.save d path format = .ok d' ↔ path.endsLikeDirectory = false ∧ ∃ place,
    d.locate? path = some place ∧ d.top.itemAt? place ≠ some .directory ∧
      d' = d.put place (.file (format.write s).toUTF8) := by
  unfold Settings.save
  dsimp only
  split
  · rename_i hplace
    simp [hplace]
  · rename_i place hplace
    split
    · rename_i es hes
      simp [hplace, Node.itemAt?_of_find? hes, Node.item]
    · rename_i hfree
      have hitem : d.top.itemAt? place ≠ some .directory := by
        intro hdirectory
        obtain ⟨es, hes⟩ := Node.itemAt?_eq_directory hdirectory
        exact hfree es hes
      cases hend : path.endsLikeDirectory with
      | true => simp
      | false =>
        simp only [Bool.false_eq_true, if_false, Except.ok.injEq, hplace, Option.some.injEq, true_and]
        constructor
        · rintro rfl
          exact ⟨place, rfl, hitem, rfl⟩
        · rintro ⟨place, rfl, -, rfl⟩
          rfl

theorem contains_of_read? {content : ByteArray} (h : d.read? path = some content) : d.contains path = true := by
  unfold Disk.read? at h
  split at h
  · rename_i hfind
    rw [Disk.contains, hfind]
    rfl
  · cases h

/-- **Saved settings are loaded as they were.** Whatever the settings are, valid or not, they can be saved at every path
at which a file can be written, and loading that file without a variable for settings in the environment gives the same
settings, with the file as their source. -/
theorem loadSettings_save (hformat : format.IsFaithful) (s : Settings) (hpath : d.TakesFile path)
    (henvironment : ∀ e ∈ u.environment, Environment.afterPrefix? e.1 = none) :
    ∃ d', s.save d path format = .ok d' ∧ u.loadSettings d' (some path) format = .ok ⟨s, some path⟩ := by
  obtain ⟨hend, place, hplace, hitem⟩ := hpath
  refine ⟨_, save_eq_ok_iff.mpr ⟨hend, place, hplace, hitem, rfl⟩, ?_⟩
  have hread := Disk.read?_put hend hplace hitem (format.write s).toUTF8
  have hsource : u.sourceFile (d.put place (.file (format.write s).toUTF8)) (some path) = .ok (some path) := by
    rw [Surroundings.sourceFile]
    exact if_pos (contains_of_read? hread)
  obtain ⟨layer, hlayer, hextract⟩ := hformat.extract?_written s
  have hfile : Surroundings.fileLayer? format (d.put place (.file (format.write s).toUTF8)) path = some layer := by
    simp only [Surroundings.fileLayer?, hread, Disk.fromUTF8?_toUTF8, Option.bind_some, hlayer]
  have hsettings : u.settings? format (d.put place (.file (format.write s).toUTF8)) (some path) = some s := by
    simp only [Surroundings.settings?, hfile, hformat.environment_eq _ henvironment, Option.map_some,
      Option.bind_eq_bind, Option.bind_some, hextract]
  simp only [Surroundings.loadSettings, hsource, hsettings]

end

/-- A disk with a link to a file that is not there yet. -/
def danglingDisk : Disk := ⟨.directory [("work", .directory [("saved.toml", .link ⟨"other.toml"⟩)])], ["work"]⟩

/-- Settings that are not valid, with strings of all kinds. -/
def hardSettings : Settings :=
  { project := { root := ⟨"it's \"here\""⟩, including := [], excluding := ["C:\\*", "'''\n\"\"\"\"", "\r\n\t\x01"] }
    migration := { accessorModule := "", classNamePattern := "ünï" }
    logging := { level := "loud" } }

theorem loadSettings_save_hardSettings :
    let format := SettingsFormat.toml
    let u : Surroundings := { environment := [("HOME", "/")], workingDirectory := ⟨"/work"⟩ }
    format.IsFaithful ∧ danglingDisk.TakesFile ⟨"saved.toml"⟩ ∧
      (∀ e ∈ u.environment, Environment.afterPrefix? e.1 = none) ∧
      ∃ d', hardSettings.save danglingDisk ⟨"saved.toml"⟩ format = .ok d' ∧
        u.loadSettings d' (some ⟨"saved.toml"⟩) format = .ok ⟨hardSettings, some ⟨"saved.toml"⟩⟩ := by
  have hlink : Path.components ⟨"saved.toml"⟩ = [.name "saved.toml"] := by decide
  have htarget : Path.components ⟨"other.toml"⟩ = [.name "other.toml"] := by decide
  have hplace : danglingDisk.locate? ⟨"saved.toml"⟩ = some ["work", "other.toml"] := by
    simp [Disk.locate?, danglingDisk, maxLinks, Node.resolve, hlink, htarget, Node.find?, Node.entry?, Node.entries,
      List.lookup_cons]
  have hfree : danglingDisk.top.itemAt? ["work", "other.toml"] ≠ some .directory := fun h => by cases h
  have hpath : danglingDisk.TakesFile ⟨"saved.toml"⟩ := ⟨by decide, _, hplace, hfree⟩
  have henvironment : ∀ e ∈ [("HOME", "/")], Environment.afterPrefix? e.1 = none := by decide
  exact ⟨toml_isFaithful, hpath, henvironment, loadSettings_save toml_isFaithful _ hpath henvironment⟩

end FieldInjection
