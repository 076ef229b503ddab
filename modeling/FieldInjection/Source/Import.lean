import FieldInjection.Text.Range

/-!
# Import statements

An import statement binds names of a module, some as values and some only as types, and has at most one
place where another name can be added.
-/

namespace FieldInjection

/-- Where and how a further name fits into an import statement. -/
inductive Insertion where
  /-- Behind the last name of the list. -/
  | afterLastSpecifier (offset : Nat)
  /-- Inside an empty list. -/
  | emptyNamedList (offset : Nat)
  /-- Behind a default binding, as a new list. -/
  | afterDefaultBinding (offset : Nat)
  | unsupported (reason : String)
  deriving DecidableEq, Repr

/-- A name imported with the inline modifier `type`. -/
structure TypeSpecifier where
  name : String
  /-- From the modifier up to the name. -/
  modifier : TextRange
  deriving DecidableEq, Repr

/-- An import statement. -/
structure ImportDecl where
  moduleName : String
  /-- The local names of the list without a modifier of their own. -/
  named : List String
  typeOnlyNamed : List TypeSpecifier
  /-- The whole statement imports types. -/
  isTypeOnly : Bool
  range : TextRange
  insertion : Insertion
  deriving DecidableEq, Repr

namespace ImportDecl

/-- Binds the name as a value. -/
def binds (i : ImportDecl) (name : String) : Bool := !i.isTypeOnly && i.named.contains name

/-- The specifier that imports the name with a modifier of its own. -/
def inlineType? (i : ImportDecl) (name : String) : Option TypeSpecifier :=
  if i.isTypeOnly then none else i.typeOnlyNamed.find? fun s => s.name == name

/-- Binds the name only as a type. -/
def bindsTypeOnly (i : ImportDecl) (name : String) : Bool :=
  (i.isTypeOnly && i.named.contains name) || (i.inlineType? name).isSome

end ImportDecl

end FieldInjection
