import FieldInjection.Difference.Unified
import FieldInjection.Migration.Request
import FieldInjection.Report.Json

/-!
# Reports

What is printed about a migration: a banner before it, and after it either a text for people, with a diff of
every file if it was a dry run, or a JSON document.
-/

namespace FieldInjection

def programName : String := "inject-it"

def programVersion : String := "0.1.0"

/-- How a completed run ended. -/
inductive RunStatus where
  | success
  /-- Some class was left as it was. -/
  | classFailures
  deriving DecidableEq, Repr

namespace RunStatus

def ofSummary (s : Summary) : RunStatus := if s.success then success else classFailures

def code : RunStatus → Nat
  | success => 0
  | classFailures => 2

end RunStatus

namespace Report

def line (text : String) : String := text ++ "\n"

def banner (r : Request) : String :=
  line (programName ++ " " ++ programVersion ++ ": `" ++ r.accessorFunction ++ "` from '" ++
    r.accessorModule ++ "' into classes matching '" ++ r.classNamePattern ++ "' under " ++ r.root.text ++
    if r.isDryRun then " (dry run)" else "")

/-- The unified diff of a file, named by its path under the root. -/
def previewDiff (root : Path) (p : FilePreview) : String :=
  let name := Path.display root p.path
  unifiedDiff ("a/" ++ name) ("b/" ++ name) p.before p.after

/-- A class that was left as it was. -/
def failureLine (root : Path) (f : ClassFailure) : String :=
  Path.display root f.file ++ "#" ++ f.className ++ ": " ++ f.reason

def text (r : Request) (o : Outcome) : String :=
  let s := o.summary
  let counts :=
    line "" ++ line ("Migrated: " ++ toString s.modified) ++ line ("Skipped:  " ++ toString s.skipped) ++
      line ("Failed:   " ++ toString s.failures.length) ++
      String.join (s.failures.map fun f => line ("  - " ++ failureLine r.root f))
  let changes :=
    if s.isDryRun then
      line ("Dry run, nothing written (" ++ toString s.plannedEdits ++ " edit(s) planned)") ++
        String.join (o.previews.map fun p => line "" ++ previewDiff r.root p)
    else
      line ("Files written: " ++ toString s.filesWritten.length) ++
        String.join (s.filesWritten.map fun file => line ("  " ++ Path.display r.root file))
  counts ++ changes

/-- The name of a kind of refusal in a document. -/
def kindName : Refusal.Kind → String
  | .malformedParameter => "malformed_parameter"
  | .unsupportedConstructor => "unsupported_constructor"
  | .missingImportSurface => "missing_import_surface"

/-- A class that was left as it was. -/
def failureDoc (f : ClassFailure) : JsonDoc :=
  .object [("file", .text f.file.text), ("class_name", .text f.className),
    ("kind", .text (kindName f.kind)), ("reason", .text f.reason)]

/-- The document, whose diffs are left out when there are none. -/
def document (r : Request) (o : Outcome) : JsonDoc :=
  let s := o.summary
  let diffs := o.previews.map fun p =>
    JsonDoc.object [("path", .text (Path.display r.root p.path)), ("diff", .text (previewDiff r.root p))]
  .object <| [("modified", .number s.modified), ("skipped", .number s.skipped),
      ("failures", .array (s.failures.map failureDoc)), ("planned_edits", .number s.plannedEdits),
      ("files_written", .array (s.filesWritten.map fun file => .text file.text)),
      ("dry_run", .boolean s.isDryRun), ("success", .boolean s.success),
      ("edits", .array (o.log.descriptions.map .text))] ++
    if diffs.isEmpty then [] else [("diffs", .array diffs)]

def json (r : Request) (o : Outcome) : String := line (document r o).render

end Report

end FieldInjection
