import FieldInjection.ImportSurface
import FieldInjection.Proofs.Planning.ImportCalls

/-!
# Where import statements are changed

A name is added to an import statement at its insertion, or a modifier is taken out of its list, and nothing else in the
surface of a file is changed (`range_amend`).
-/

namespace FieldInjection

/-- A property of the place at which a name can be inserted, if there is one. -/
def Insertion.At (P : TextRange → Prop) : Insertion → Prop
  | .afterLastSpecifier offset => P (.empty offset)
  | .emptyNamedList offset => P (.empty offset)
  | .afterDefaultBinding offset => P (.empty offset)
  | .unsupported _ => True

/-- A property of all places at which an import statement can be changed. -/
structure ImportDecl.ChangesAt (P : TextRange → Prop) (i : ImportDecl) : Prop where
  insertion : i.insertion.At P
  modifier : ∀ s ∈ i.typeOnlyNamed, P s.modifier

theorem Insertion.At.imp {P Q : TextRange → Prop} (hPQ : ∀ range, P range → Q range) {i : Insertion}
    (h : i.At P) : i.At Q := by
  cases i with
  | unsupported reason => exact trivial
  | _ => exact hPQ _ h

theorem ImportDecl.ChangesAt.imp {P Q : TextRange → Prop} (hPQ : ∀ range, P range → Q range)
    {i : ImportDecl} (h : i.ChangesAt P) : i.ChangesAt Q :=
  ⟨h.insertion.imp hPQ, fun s hs => hPQ _ (h.modifier s hs)⟩

theorem range_insertion {P : TextRange → Prop} {name : String} {place : Insertion} {e : TextEdit}
    (h : ImportSurface.insertion name place = .ok e) (hplace : place.At P) : P e.range := by
  cases place with
  | unsupported reason => cases h
  | _ =>
    cases h
    exact hplace

/-- An import surface is changed where one of its statements can be changed. -/
theorem range_amend {P : TextRange → Prop} {name : String} {is : List ImportDecl} {e : TextEdit}
    (h : ImportSurface.amend name is = .ok e) (his : ∀ i ∈ is, i.ChangesAt P) : P e.range := by
  obtain ⟨i, hi, -, ⟨s, hs, -, rfl⟩ | ⟨hinsertion, -⟩⟩ := ImportSurface.amend_eq_ok h
  · exact (his i hi).modifier s hs
  · exact range_insertion hinsertion (his i hi).insertion

end FieldInjection
