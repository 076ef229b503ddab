import Mathlib.Data.List.Pairwise
import FieldInjection.Proofs.Edit.Growth
import FieldInjection.Source.Project

/-!
# The order of paths

Paths are compared component by component, first by kind and names then by their bytes. The order is total on
spellings, and two spellings stand at one place in it exactly if they are the same path (`Path.compare_eq_iff`).
So there is one way only to put files of different paths in order (`Project.ofUnits_perm`).
-/

namespace FieldInjection

namespace Component

/-- The name, if the component is one. -/
def text : Component → String
  | name t => t
  | _ => ""

/-- Components of different kinds are in the order of their kinds, and two names in the order of texts. -/
theorem compare_eq_lex (a b : Component) :
    a.compare b = compareLex (compareOn rank) (compareOn text) a b := by
  cases a <;> cases b <;> simp [Component.compare, compareLex, compareOn, rank, text] <;> rfl

theorem compare_eq : Component.compare = compareLex (compareOn rank) (compareOn text) := by
  funext a b
  exact compare_eq_lex a b

instance : Std.TransCmp Component.compare := by
  rw [compare_eq]
  infer_instance

end Component

namespace Path

theorem compareComponents_eq (as bs : List Component) :
    compareComponents as bs = List.compareLex Component.compare as bs := by
  induction as generalizing bs with
  | nil => cases bs <;> rfl
  | cons a as ih =>
    cases bs with
    | nil => rfl
    | cons b bs => rw [compareComponents, List.compareLex_cons_cons, ih]

instance : Std.TransCmp Path.compare where
  eq_swap {p q} := by
    rw [compare, compare, compareComponents_eq, compareComponents_eq]
    exact Std.OrientedCmp.eq_swap
  isLE_trans {p q r} hpq hqr := by
    rw [compare, compareComponents_eq] at hpq hqr ⊢
    exact Std.TransCmp.isLE_trans hpq hqr

/-- Two spellings stand at one place of the order exactly if they are the same path. -/
theorem compare_eq_iff {p q : Path} : p.compare q = .eq ↔ p.same q = true := by
  constructor
  · exact same_of_compare
  · intro h
    rw [compare, same_iff.mp h, compareComponents_eq]
    exact Std.ReflCmp.compare_self

theorem le_eq_isLE (p q : Path) : p.le q = (p.compare q).isLE := by
  unfold le
  cases p.compare q <;> rfl

theorem le_trans {p q r : Path} (hpq : p.le q = true) (hqr : q.le r = true) : p.le r = true := by
  rw [le_eq_isLE] at hpq hqr ⊢
  exact Std.TransCmp.isLE_trans hpq hqr

theorem le_total (p q : Path) : (p.le q || q.le p) = true := by
  have hswap : q.compare p = (p.compare q).swap := Std.OrientedCmp.eq_swap
  rw [le_eq_isLE, le_eq_isLE, hswap]
  cases p.compare q <;> rfl

/-- Of two different paths, one only is not behind the other. -/
theorem same_of_le_of_le {p q : Path} (hpq : p.le q = true) (hqp : q.le p = true) : p.same q = true := by
  rw [le_eq_isLE] at hpq hqp
  exact compare_eq_iff.mp (Std.OrientedCmp.isLE_antisymm hpq hqp)

end Path

/-- Of files with different paths, each has its own. -/
theorem eq_of_same_of_mem {us : List SourceUnit} {u v : SourceUnit}
    (hdistinct : us.Pairwise fun u v => u.path.same v.path = false) (hu : u ∈ us) (hv : v ∈ us)
    (hsame : u.path.same v.path = true) : u = v := by
  have hsymm : Std.Symm fun u v : SourceUnit => u.path.same v.path = false := by
    constructor
    intro u v h
    rw [Path.same_comm]
    exact h
  by_contra hne
  have hother : u.path.same v.path = false := hdistinct.forall hu hv hne
  rw [hsame] at hother
  cases hother

namespace Project

/-- The units of a project stand in path order. -/
theorem pairwise_le_units (root : Path) (us : List SourceUnit) :
    (ofUnits root us).units.Pairwise fun u v => u.le v = true := by
  have htrans : ∀ u v w : SourceUnit, u.le v = true → v.le w = true → u.le w = true :=
    fun _ _ _ => Path.le_trans
  have htotal : ∀ u v : SourceUnit, (u.le v || v.le u) = true := fun u v => Path.le_total u.path v.path
  exact List.pairwise_mergeSort htrans htotal us

/-- The units of a project are those it was built from. -/
theorem units_perm (root : Path) (us : List SourceUnit) : (ofUnits root us).units.Perm us :=
  List.mergeSort_perm us SourceUnit.le

/-- A project does not depend on the order in which its files are supplied. -/
theorem ofUnits_perm (root : Path) {us vs : List SourceUnit} (h : us.Perm vs)
    (hdistinct : us.Pairwise fun u v => u.path.same v.path = false) : ofUnits root us = ofUnits root vs := by
  have hperm : (ofUnits root us).units.Perm (ofUnits root vs).units :=
    (units_perm root us).trans (h.trans (units_perm root vs).symm)
  have hunits : (ofUnits root us).units = (ofUnits root vs).units := by
    refine hperm.eq_of_pairwise ?_ (pairwise_le_units root us) (pairwise_le_units root vs)
    -- of two units with different paths, one cannot be on both sides of the other
    intro u v hu hv huv hvu
    have hsame := Path.same_of_le_of_le huv hvu
    have hu' : u ∈ us := (units_perm root us).subset hu
    have hv' : v ∈ us := h.symm.subset ((units_perm root vs).subset hv)
    exact eq_of_same_of_mem hdistinct hu' hv' hsame
  exact congrArg (Project.mk root) hunits

end Project

end FieldInjection
