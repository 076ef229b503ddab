import Mathlib.Algebra.BigOperators.Group.List.Basic
import FieldInjection.Proofs.Path.Order
import FieldInjection.Proofs.Planning.Effect
import FieldInjection.Proofs.Planning.ImportAccount

/-!
# Files are planned independently of one another

All files share one log, and what is recorded for one of them must not show in another. A plan is what the plans of
the single files are together: of its log and its failures each file has those that it has when it is planned alone,
the counts are the sums of theirs, and it does not matter in which order the files are supplied
(`plan_independent_of_files`).
-/

namespace FieldInjection

/-- The plan of some files is made of plans of the single files. -/
structure Plan.IsMadeOf (plan : Plan) (us : List SourceUnit) (alone : SourceUnit → Plan) : Prop where
  forFile_eq : ∀ u ∈ us, plan.log.forFile u.path = (alone u).log.edits
  failures_eq : ∀ u ∈ us, plan.failures.filter (fun f => f.file.same u.path) = (alone u).failures
  modified_eq : plan.modified = (us.map fun u => (alone u).modified).sum
  skipped_eq : plan.skipped = (us.map fun u => (alone u).skipped).sum

section
variable {r : Request} {root : Path} {us vs : List SourceUnit} {u : SourceUnit}

theorem ofUnits_singleton (root : Path) (u : SourceUnit) : Project.ofUnits root [u] = ⟨root, [u]⟩ := by
  simp [Project.ofUnits]

theorem ofUnits_hasDistinctPaths (root : Path)
    (hdistinct : us.Pairwise fun u v => u.path.same v.path = false) :
    (Project.ofUnits root us).HasDistinctPaths := by
  refine (Project.units_perm root us).symm.pairwise hdistinct ?_
  intro u v h
  rw [Path.same_comm]
  exact h

/-- The plan of a single file is what the file contributes to any plan. -/
theorem ofClasses_singleton [GlobReader] (r : Request) (u : SourceUnit) : Plan.ofClasses r (selectedClasses r [u]) =
    Plan.empty.grow (fileEdits r u (selectedIn r u)) (migratedAmong r u (selectedIn r u)).length
      ((selectedIn r u).countP fun c => fateOf r u c = .skipped) (failuresAmong r u (selectedIn r u)) := by
  have hdistinct : (⟨⟨""⟩, [u]⟩ : Project).HasDistinctPaths := List.pairwise_singleton _ _
  have hplan := ofClasses_eq (r := r) hdistinct
  simpa using hplan

/-- A project whose files have different paths has a plan that is made of those of its files. -/
theorem ofClasses_isMadeOf [GlobReader] {p : Project} (hdistinct : p.HasDistinctPaths) (howns : ∀ v ∈ p.units, v.OwnsClasses)
    (hperm : p.units.Perm us) : (Plan.ofClasses r (selectedClasses r p.units)).IsMadeOf us
      fun u => .ofClasses r (selectedClasses r [u]) where
  forFile_eq := by
    intro u hu
    rw [forFile_plan hdistinct howns (hperm.symm.subset hu), ofClasses_singleton]
    rfl
  failures_eq := by
    intro u hu
    rw [filter_failures_plan hdistinct howns (hperm.symm.subset hu), ofClasses_singleton]
    rfl
  modified_eq := by
    simp only [ofClasses_eq hdistinct, ofClasses_singleton, Plan.grow, Plan.empty, Nat.zero_add]
    exact (hperm.map _).sum_eq
  skipped_eq := by
    simp only [ofClasses_eq hdistinct, ofClasses_singleton, Plan.grow, Plan.empty, Nat.zero_add]
    exact (hperm.map _).sum_eq

/--
**Files are planned independently of one another**: files with different paths have one plan, in whatever order they
are supplied. It is refused exactly as the plan of any of them alone is, and otherwise it is made of their plans.
-/
theorem plan_independent_of_files [GlobReader] (hdistinct : us.Pairwise fun u v => u.path.same v.path = false)
    (howns : ∀ u ∈ us, u.OwnsClasses) :
    (∀ vs, us.Perm vs → planProject r (.ofUnits root vs) = planProject r (.ofUnits root us)) ∧
    (∀ failure, (planProject r (.ofUnits root us)).answer = .error failure →
      ∀ u ∈ us, (planProject r (.ofUnits root [u])).answer = .error failure) ∧
    ∀ plan, (planProject r (.ofUnits root us)).answer = .ok plan →
      ∃ alone : SourceUnit → Plan, (∀ u ∈ us, (planProject r (.ofUnits root [u])).answer = .ok (alone u)) ∧
        plan.IsMadeOf us alone := by
  have hperm := Project.units_perm root us
  refine ⟨?_, ?_, ?_⟩
  · -- the project is the same, and so is everything that is done with it
    intro vs hvs
    rw [Project.ofUnits_perm root hvs hdistinct]
  · -- only the globs can be refused, which belong to the request
    intro failure hfailure u _
    unfold planProject at hfailure ⊢
    cases hs : Selector.ofRequest r with
    | error failure' =>
      rw [hs] at hfailure
      exact hfailure
    | ok s => simp [hs] at hfailure
  · intro plan hplan
    obtain ⟨hglobs, rfl⟩ := planProject_eq_ok_iff.mp hplan
    refine ⟨fun u => .ofClasses r (selectedClasses r [u]), ?_, ?_⟩
    · intro u _
      rw [planProject_eq_ok_iff, ofUnits_singleton]
      exact ⟨hglobs, rfl⟩
    · refine ofClasses_isMadeOf (ofUnits_hasDistinctPaths root hdistinct) ?_ hperm
      intro v hv
      exact howns v (hperm.subset hv)

/-- A file with one class, whose path is spelled in two ways. -/
def plainFile : SourceUnit where
  path := ⟨"/p//b.ts"⟩
  relativePath := ⟨"b.ts"⟩
  text := "import \x7b C \x7d from '@angular/core';\nclass BComponent \x7b constructor(b: B) \x7b\x7d \x7d\n"
  classes := [
    ⟨"BComponent", ⟨"/p/b.ts"⟩, ⟨35, 76⟩, 53, "    ", true, .lf,
      some ⟨[⟨"b", .identifier, some "B", false, false, none, [], ⟨66, 70⟩⟩], ⟨66, 70⟩, 0⟩⟩]
  imports := [⟨"@angular/core", ["C"], [], false, ⟨0, 34⟩, .afterLastSpecifier 10⟩]
  hasSyntaxErrors := false

/-- The import edit of one file counts for no other, and neither does the refused class of the other file. -/
theorem plan_independent_of_two_files :
    let r := Request.forRoot ⟨"/p"⟩
    let us := [plainFile, restAndPlain]
    (us.Pairwise fun u v => u.path.same v.path = false) ∧ (∀ u ∈ us, u.OwnsClasses) ∧
      planProject r (.ofUnits ⟨"/p"⟩ us.reverse) = planProject r (.ofUnits ⟨"/p"⟩ us) ∧
      ∃ plan alone, (planProject r (.ofUnits ⟨"/p"⟩ us)).answer = .ok plan ∧
        (∀ u ∈ us, (planProject r (.ofUnits ⟨"/p"⟩ [u])).answer = .ok (alone u)) ∧ plan.IsMadeOf us alone := by
  intro r us
  have hglobs : (Selector.ofRequest r).isOk = true := by decide +kernel
  have hdistinct : us.Pairwise fun u v => u.path.same v.path = false := by decide +kernel
  have howns : ∀ u ∈ us, u.OwnsClasses := by
    unfold SourceUnit.OwnsClasses
    decide +kernel
  obtain ⟨plan, hplan, -⟩ := exists_plan hglobs (.ofUnits ⟨"/p"⟩ us)
  obtain ⟨horder, -, hmade⟩ := @plan_independent_of_files r ⟨"/p"⟩ us _ hdistinct howns
  obtain ⟨alone, halone, hsum⟩ := hmade plan hplan
  exact ⟨hdistinct, howns, horder us.reverse (List.reverse_perm us).symm, plan, alone, hplan, halone, hsum⟩

end

end FieldInjection
