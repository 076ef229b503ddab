import FieldInjection.Program

/-!
# The executable

Runs the program in the working directory. The names of the files that it may see come on standard input, one
on a line; they and the configuration files are read into a disk, the program runs on that disk, and the files
that it has changed there are written back.
-/

namespace FieldInjection.Executable

/-- The variables that settings are read from. -/
def variableNames : List String :=
  let keys :=
    [("PROJECT", ["ROOT", "INCLUDE", "EXCLUDE"]),
      ("MIGRATION",
        ["CLASS_FILES", "CLASS_NAME_PATTERN", "ACCESSOR_MODULE", "ACCESSOR_FUNCTION", "DRY_RUN"]),
      ("LOGGING", ["LEVEL", "JSON_FORMAT"])]
  Program.filterVariable ::
    keys.flatMap fun x =>
      let section_ := Environment.variablePrefix ++ x.1
      section_ :: x.2.map fun key => section_ ++ "__" ++ key

def readVariables : IO (List (String × String)) :=
  variableNames.filterMapM fun name => return (← IO.getEnv name).map fun value => (name, value)

/-- Where the user's programs keep their configurations. -/
def configDirectory : IO (Option Path) := do
  match ← IO.getEnv "XDG_CONFIG_HOME", ← IO.getEnv "HOME" with
  | some place, _ => return some ⟨place⟩
  | none, some home => return some (Path.join ⟨home⟩ ⟨".config"⟩)
  | none, none => return none

/-- What the program can see of where it runs. -/
def readSurroundings : IO Surroundings :=
  return ⟨← readVariables, ⟨toString (← IO.currentDir)⟩, ← configDirectory⟩

/-- The lines of a stream up to its end. -/
partial def readLines (input : IO.FS.Stream) : IO (List String) := do
  let line ← input.getLine
  if line.isEmpty then return []
  return trimBlanks line :: (← readLines input)

/-- Adds a file to a disk, if there is such a file. -/
def addFile (d : Disk) (path : Path) : IO Disk := do
  try
    return d.create path (← IO.FS.readBinFile path.text)
  catch _ => return d

/-- The configuration files that may be read. -/
def configurationFiles (s : Surroundings) (arguments : List String) : List Path :=
  match CommandLine.read arguments with
  | .ok flags => s.defaultFiles ++ flags.config.toList
  | .error _ => []

/-- The names on the way to a directory. -/
def namesOf (p : Path) : List String :=
  p.components.filterMap fun
    | .name text => some text
    | _ => none

/-- The files of one disk that are not the same on another. -/
def changes (before after : Disk) : List (List String × ByteArray) :=
  after.top.files.filter fun x =>
    match before.top.find? x.1 with
    | some (.file content) => content != x.2
    | _ => true

/-- Runs the program and gives its exit code. -/
def runIn (s : Surroundings) (arguments : List String) (files : List Path) : IO UInt32 := do
  let place := namesOf s.workingDirectory
  let before ← files.foldlM addFile ⟨Node.put .emptyDirectory place .emptyDirectory, place⟩
  let done := Program.run arguments s before
  for (place, content) in changes before done.disk do
    IO.FS.writeBinFile ("/" ++ String.intercalate "/" place) content
  IO.print done.output
  for line in done.errorLines do
    IO.eprintln line
  return done.code.toUInt32

end FieldInjection.Executable

open FieldInjection Executable in
def main (arguments : List String) : IO UInt32 := do
  let s ← readSurroundings
  let names ← readLines (← IO.getStdin)
  runIn s arguments (configurationFiles s arguments ++ names.map FieldInjection.Path.mk)
