import FieldInjection.Source.Class

/-!
# Fields

A field declaration as it is inserted into a class body.
-/

namespace FieldInjection

/-- A field with an initializer. -/
structure Field where
  name : String
  declaredType : Option String
  isReadonly : Bool
  isOverride : Bool
  scope : Option Scope
  initializer : String
  deriving DecidableEq, Repr

/-- The text of a field: its modifiers in the order scope, `override`, `readonly`, then the name, the type
if there is one, and the initializer. -/
def Field.render (f : Field) : String :=
  (match f.scope with | some s => s.keyword ++ " " | none => "") ++
  (if f.isOverride then "override " else "") ++
  (if f.isReadonly then "readonly " else "") ++
  f.name ++
  (match f.declaredType with | some t => ": " ++ t | none => "") ++
  " = " ++ f.initializer ++ ";"

end FieldInjection
