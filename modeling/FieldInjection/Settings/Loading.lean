import FieldInjection.FileTree.Disk
import FieldInjection.Settings.Format

/-!
# Loading settings

Settings come from three layers: the defaults, a configuration file, and the environment. The file is the
one that is asked for, which must exist, or else the first default one that does.
-/

namespace FieldInjection

/-- Where a program runs. -/
structure Surroundings where
  environment : List (String × String) := []
  /-- The absolute path of the working directory. -/
  workingDirectory : Path
  /-- Where the user's programs keep their configurations. -/
  configDirectory : Option Path := none
  deriving Repr

/-- Settings with the file they were read from. -/
structure LoadedSettings where
  settings : Settings
  source : Option Path
  deriving DecidableEq, Repr

namespace Surroundings

def fileName : Path := ⟨"inject-it.toml"⟩

/-- The name of the directory for a user's configuration. -/
def directoryName : Path := ⟨"inject-it"⟩

/-- The places of default configuration files. -/
def defaultFiles (s : Surroundings) : List Path :=
  s.workingDirectory.join fileName ::
    (s.configDirectory.map fun d => (d.join directoryName).join fileName).toList

/-- The configuration file, if there is one. -/
def sourceFile (s : Surroundings) (d : Disk) (asked : Option Path) : Except Failure (Option Path) :=
  match asked with
  -- without a default file the settings are the defaults
  | none => .ok (s.defaultFiles.find? d.contains)
  | some path =>
    if d.contains path then .ok (some path)
    else .error (misconfigured ("Configuration file not found: " ++ path.text))

/-- The layer of a configuration file; what is not a file has nothing to say. -/
def fileLayer? (format : SettingsFormat) (d : Disk) (path : Path) : Option Setting :=
  match d.read? path with
  | none => some .empty
  | some content => (String.fromUTF8? content).bind format.read?

/-- The settings of all layers: the file is merged over the defaults, and the environment over both. -/
def settings? (s : Surroundings) (format : SettingsFormat) (d : Disk) (source : Option Path) : Option Settings := do
  let defaults := format.layerOf {}
  let layer ←
    match source with
    | none => some defaults
    | some path => (fileLayer? format d path).map (format.merge defaults)
  format.extract? (format.merge layer (format.environment s.environment))

def loadSettings (s : Surroundings) (d : Disk) (asked : Option Path) (format : SettingsFormat := .toml) :
    Except Failure LoadedSettings :=
  match s.sourceFile d asked with
  | .error failure => .error failure
  | .ok source =>
    match s.settings? format d source with
    | none => .error (misconfigured "Failed to extract configuration")
    | some settings => .ok ⟨settings, source⟩

end Surroundings

/-- Saves settings to a file in a directory that exists. -/
def Settings.save (s : Settings) (d : Disk) (path : Path) (format : SettingsFormat := .toml) : Except Failure Disk :=
  let refused : Except Failure Disk := .error (misconfigured "Failed to write config file")
  match d.locate? path with
  | none => refused
  | some place =>
    match d.top.find? place with
    | some (.directory _) => refused
    | _ => if path.endsLikeDirectory then refused else .ok (d.put place (.file (format.write s).toUTF8))

end FieldInjection
