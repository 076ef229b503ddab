import FieldInjection.CommandLine.Option
import FieldInjection.Report

/-!
# Help

What the program says about itself: its version, and how it is used. Options are explained in two columns,
the second of which begins behind the longest option.
-/

namespace FieldInjection.CommandLine

namespace Argument

/-- An option as it is listed: its short name, if it has one, its long name, and its value's name. -/
def listed (a : Argument) : String :=
  let short :=
    match a.shortName? with
    | some c => "-" ++ String.singleton c ++ ", "
    | none => "    "
  short ++ a.display

def listedWidth : Nat := (options.map fun a => a.listed.length).foldl max 0

def explanation (a : Argument) : String :=
  let gap := String.ofList (List.replicate (listedWidth - a.listed.length) ' ')
  Report.line ("  " ++ a.listed ++ gap ++ "  " ++ a.purpose)

end Argument

def summary : String := "Migrate constructor-parameter injection to inject() fields"

def help : String :=
  let place := Argument.root
  Report.line summary ++ Report.line "" ++
    Report.line ("Usage: " ++ programName ++ " [OPTIONS] " ++ place.display) ++ Report.line "" ++
    Report.line "Arguments:" ++ Report.line ("  " ++ place.display ++ "  " ++ place.purpose) ++
    Report.line "" ++ Report.line "Options:" ++
    String.join (Argument.options.map Argument.explanation)

def versionLine : String := Report.line (programName ++ " " ++ programVersion)

end FieldInjection.CommandLine
