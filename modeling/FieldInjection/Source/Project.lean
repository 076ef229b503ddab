import FieldInjection.Source.Class
import FieldInjection.Source.Import

/-!
# Source units and projects

A source unit is one file as it was read. A project holds the units under a root in path order; units of
equal paths keep the order they came in.
-/

namespace FieldInjection

/-- A file with what was read from it. -/
structure SourceUnit where
  path : Path
  /-- The path under the project's root. -/
  relativePath : Path
  text : String
  classes : List ClassDecl
  imports : List ImportDecl
  hasSyntaxErrors : Bool
  deriving DecidableEq, Repr

namespace SourceUnit

/-- The import statements from one module, in the order of the text. -/
def importsFrom (u : SourceUnit) (moduleName : String) : List ImportDecl :=
  u.imports.filter fun i => i.moduleName == moduleName

theorem mem_importsFrom {u : SourceUnit} {i : ImportDecl} {moduleName : String} :
    i ∈ u.importsFrom moduleName ↔ i ∈ u.imports ∧ i.moduleName = moduleName := by
  simp [importsFrom]

/-- Not behind in the order of a project. -/
def le (u v : SourceUnit) : Bool := u.path.le v.path

end SourceUnit

/-- The units under a root, in path order. -/
structure Project where
  root : Path
  units : List SourceUnit
  deriving DecidableEq, Repr

namespace Project

def ofUnits (root : Path) (units : List SourceUnit) : Project :=
  ⟨root, units.mergeSort SourceUnit.le⟩

/-- The project without a root and units. -/
def empty : Project := ⟨⟨""⟩, []⟩

/-- The first unit at a path, under any spelling. -/
def unit? (p : Project) (path : Path) : Option SourceUnit :=
  p.units.find? fun u => u.path.same path

/-- All classes with their units, file by file. -/
def classes (p : Project) : List (SourceUnit × ClassDecl) :=
  p.units.flatMap fun u => u.classes.map fun c => (u, c)

end Project

end FieldInjection
