import FieldInjection.Decorator
import FieldInjection.Edit.Log

/-!
# Classes and their constructors

What is read from a source text about a class: where it stands, how its members are laid out, and the
parameters of its constructor. All ranges are byte ranges of the text as it was read.
-/

namespace FieldInjection

/-- An accessibility modifier. -/
inductive Scope where
  | pub
  | prot
  | priv
  deriving DecidableEq, Repr

namespace Scope

def keyword : Scope → String
  | .pub => "public"
  | .prot => "protected"
  | .priv => "private"

def ofKeyword? : String → Option Scope
  | "public" => some .pub
  | "protected" => some .prot
  | "private" => some .priv
  | _ => none

theorem ofKeyword?_keyword (s : Scope) : ofKeyword? s.keyword = some s := by
  cases s <;> rfl

end Scope

/-- The shape in which a parameter is bound. -/
inductive Binding where
  | identifier
  | rest
  | destructured
  deriving DecidableEq, Repr

/-- A constructor parameter. -/
structure Parameter where
  /-- The name, or the text of the pattern. -/
  name : String
  binding : Binding
  declaredType : Option String
  isReadonly : Bool
  isOverride : Bool
  scope : Option Scope
  decorators : List Decorator
  /-- From the first decorator through the default value. -/
  range : TextRange
  deriving DecidableEq, Repr

/-- A constructor with a body. -/
structure Constructor where
  parameters : List Parameter
  /-- What stands between the parentheses. -/
  parameterList : TextRange
  /-- How many constructor signatures without a body stand in the class. -/
  overloads : Nat
  deriving DecidableEq, Repr

/-- How lines end in a text. -/
inductive LineEnding where
  | lf
  | crlf
  deriving DecidableEq, Repr

def LineEnding.text : LineEnding → String
  | lf => "\n"
  | crlf => "\r\n"

/-- A class declaration. -/
structure ClassDecl where
  name : String
  file : Path
  range : TextRange
  /-- Just after the opening brace of the body. -/
  bodyStart : Nat
  /-- The blanks in front of a member. -/
  memberIndent : String
  /-- Whether the body holds anything besides comments. -/
  hasMembers : Bool
  lineEnding : LineEnding
  constructor? : Option Constructor
  deriving DecidableEq, Repr

namespace ClassDecl

/-- The parameters to turn into fields; none without a constructor. -/
def parameters (c : ClassDecl) : List Parameter :=
  match c.constructor? with
  | some constructor => constructor.parameters
  | none => []

/-- The class name behind its file. -/
def qualifiedName (c : ClassDecl) : String := c.file.text ++ "#" ++ c.name

end ClassDecl

end FieldInjection
