import FieldInjection.Settings.Environment
import FieldInjection.Toml.Document
import FieldInjection.Toml.Printer

/-!
# The form of settings

How settings are written down and found again: as a text, as a layer of settings, and as variables in the environment.
No form is fixed here. What has to be known of one is said where it is used; `toml` is the one that is used where no
other is given.
-/

namespace FieldInjection

structure SettingsFormat where
  /-- Writes settings as a text. -/
  write : Settings → String
  /-- The layer in a text. -/
  read? : String → Option Setting
  /-- The layer that says all settings. -/
  layerOf : Settings → Setting
  /-- The settings that a layer says. -/
  extract? : Setting → Option Settings
  /-- Merges a later layer over an earlier one. -/
  merge : Setting → Setting → Setting
  /-- The layer of the variables that are settings. -/
  environment : List (String × String) → Setting

def ProjectSettings.toSetting (s : ProjectSettings) : Setting :=
  .table [("root", .text s.root.text), ("include", .list (s.including.map .text)),
    ("exclude", .list (s.excluding.map .text))]

def MigrationSettings.toSetting (s : MigrationSettings) : Setting :=
  .table [("class_files", .text s.classFiles), ("class_name_pattern", .text s.classNamePattern),
    ("accessor_module", .text s.accessorModule), ("accessor_function", .text s.accessorFunction),
    ("dry_run", .boolean s.isDryRun)]

def LoggingSettings.toSetting (s : LoggingSettings) : Setting :=
  .table [("level", .text s.level), ("json_format", .boolean s.asJson)]

def Settings.toSetting (s : Settings) : Setting :=
  .table [("project", s.project.toSetting), ("migration", s.migration.toSetting), ("logging", s.logging.toSetting)]

/-- Settings in TOML documents. -/
def SettingsFormat.toml : SettingsFormat where
  write := Settings.toToml
  read? := Toml.read?
  layerOf := Settings.toSetting
  extract? := Settings.ofSetting?
  merge := Setting.merge
  environment := Environment.layer

end FieldInjection
