import FieldInjection.Migration.Plan
import FieldInjection.Proofs.Edit.Growth

/-!
# The fate of a class

What becomes of a class depends on its file and on the class alone, although `judge` also looks at the log:
the log can only show that an import edit was planned for the file before, and then one can be planned.

`fateOf` decides without a log, `surfaceEdits` and `memberEdits` are the edits that a file and a class take,
and `add_eq` says with these three what planning one more class does to a plan. Everything about whole plans
is derived from it.
-/

namespace FieldInjection

/-- What becomes of a class. -/
inductive Fate where
  | skipped
  | migrated
  | refused (refusal : Refusal)
  deriving DecidableEq, Repr

/-- The fate that a verdict means. -/
def Verdict.fate : Verdict → Fate
  | .skipped => .skipped
  | .migrated _ _ _ => .migrated
  | .importRefused refusal => .refused refusal
  | .membersRefused _ refusal _ => .refused refusal

/-- Why a class of this fate is left as it was, if it is. -/
def Fate.refusal? : Fate → Option Refusal
  | .refused refusal => some refusal
  | _ => none

/-- Whether some import of the accessor's module in a file binds the accessor as a value. -/
def bindsAccessor (r : Request) (u : SourceUnit) : Bool :=
  (u.importsFrom r.accessorModule).any fun i => i.binds r.accessorFunction

/-- The edits that the import surface of a file takes, at most one, or why it cannot carry the accessor. -/
def surfaceEdits (r : Request) (u : SourceUnit) : Except Refusal (List PlannedEdit) :=
  if bindsAccessor r u then .ok []
  else
    match ImportSurface.amend r.accessorFunction (u.importsFrom r.accessorModule) with
    | .error obstacle => .error (.missingImportSurface u.path r.accessorModule obstacle.message)
    | .ok edit => .ok [⟨u.path, .addNamedImport r.accessorModule r.accessorFunction, edit⟩]

/-- The edits that the members of a class take, or why they cannot be migrated. -/
def memberEdits (r : Request) (c : ClassDecl) : Except Refusal (List PlannedEdit) :=
  (FieldPromotion.promote r.accessorFunction c .empty).map fun x => x.1.edits

/-- The edits of a result; none of a refusal. -/
def editsOrNone : Except Refusal (List PlannedEdit) → List PlannedEdit
  | .ok es => es
  | .error _ => []

/-- The import edit of a file, if it needs and can have one. -/
def importEdits (r : Request) (u : SourceUnit) : List PlannedEdit := editsOrNone (surfaceEdits r u)

/-- The edits of a class for its members, if it can be migrated. -/
def classEdits (r : Request) (c : ClassDecl) : List PlannedEdit := editsOrNone (memberEdits r c)

/-- What becomes of a class of a file. -/
def fateOf (r : Request) (u : SourceUnit) (c : ClassDecl) : Fate :=
  if c.parameters.isEmpty then .skipped
  else
    match surfaceEdits r u with
    | .error refusal => .refused refusal
    | .ok _ =>
      match memberEdits r c with
      | .error refusal => .refused refusal
      | .ok _ => .migrated

section
variable {r : Request} {u : SourceUnit} {c : ClassDecl} {log : EditLog}

/-! ## The import surface -/

theorem importsFrom_ne_nil_of_bindsAccessor (h : bindsAccessor r u = true) :
    (u.importsFrom r.accessorModule).isEmpty = false := by
  unfold bindsAccessor at h
  cases hi : u.importsFrom r.accessorModule with
  | nil => simp [hi] at h
  | cons i is => rfl

/-- A file whose log has no import edit yet is reconciled as with the empty log. -/
theorem reconcile_of_not_addsImport
    (h : log.addsImport u.path r.accessorModule r.accessorFunction = false) :
    (ImportSurface.reconcile r.accessorModule r.accessorFunction u log).map Prod.fst =
      (surfaceEdits r u).map log.extend := by
  unfold ImportSurface.reconcile surfaceEdits
  by_cases hb : bindsAccessor r u = true
  · -- an import binds the accessor, so there are imports to look at and nothing to amend
    have hne := importsFrom_ne_nil_of_bindsAccessor hb
    have hany : (u.importsFrom r.accessorModule).any (fun i => i.binds r.accessorFunction) = true := hb
    simp [hb, hne, hany, Except.map]
  · -- neither the imports nor the log offer the accessor, so both sides amend
    have hany : (u.importsFrom r.accessorModule).any (fun i => i.binds r.accessorFunction) = false := by
      simpa [bindsAccessor] using hb
    simp only [hany, h, Bool.or_self, Bool.and_false, Bool.false_eq_true, if_false, hb]
    cases ImportSurface.amend r.accessorFunction (u.importsFrom r.accessorModule) with
    | error obstacle => rfl
    | ok edit => rfl

/-- A file that can have an import edit needs no other once the log has it. -/
theorem reconcile_of_addsImport
    (h : log.addsImport u.path r.accessorModule r.accessorFunction = true)
    (hne : importEdits r u ≠ []) :
    ImportSurface.reconcile r.accessorModule r.accessorFunction u log = .ok (log, .alreadyImported) := by
  -- `reconcile` asks the log only if there are imports, and without any there is no import edit either
  have himports : (u.importsFrom r.accessorModule).isEmpty = false := by
    cases hi : u.importsFrom r.accessorModule with
    | nil =>
      exfalso
      apply hne
      simp [importEdits, surfaceEdits, bindsAccessor, hi, ImportSurface.amend, editsOrNone]
    | cons i is => rfl
  simp [ImportSurface.reconcile, himports, h]

theorem surfaceEdits_ok_of_importEdits_ne_nil (hne : importEdits r u ≠ []) :
    surfaceEdits r u = .ok (importEdits r u) := by
  unfold importEdits at hne ⊢
  cases hs : surfaceEdits r u with
  | error refusal => simp [hs, editsOrNone] at hne
  | ok es => rfl

/-- The import edit of a file belongs to it and adds the accessor. -/
theorem mem_importEdits {e : PlannedEdit} (he : e ∈ importEdits r u) :
    e.file = u.path ∧ e.purpose = .addNamedImport r.accessorModule r.accessorFunction ∧
      ImportSurface.amend r.accessorFunction (u.importsFrom r.accessorModule) = .ok e.edit := by
  unfold importEdits surfaceEdits at he
  split at he
  · simp [editsOrNone] at he
  · split at he
    · simp [editsOrNone] at he
    · rename_i edit hedit
      simp only [editsOrNone, List.mem_singleton] at he
      subst he
      exact ⟨rfl, rfl, hedit⟩

theorem length_importEdits_le : (importEdits r u).length ≤ 1 := by
  unfold importEdits surfaceEdits
  split
  · simp [editsOrNone]
  · split <;> simp [editsOrNone]

/-- A file whose import surface can carry the accessor has an import edit unless it binds it already. -/
theorem importEdits_eq_nil_iff {es : List PlannedEdit} (hs : surfaceEdits r u = .ok es) :
    importEdits r u = [] ↔ bindsAccessor r u = true := by
  unfold importEdits
  unfold surfaceEdits at hs ⊢
  by_cases hb : bindsAccessor r u = true
  · simp [hb, editsOrNone]
  · simp only [hb, Bool.false_eq_true, if_false] at hs ⊢
    split at hs
    · cases hs
    · rename_i edit hedit
      simp [editsOrNone]

/-! ## The members -/

/-- The edits for the members of a class do not depend on the log. -/
theorem promote_log (log : EditLog) :
    (FieldPromotion.promote r.accessorFunction c log).map Prod.fst = (memberEdits r c).map log.extend := by
  unfold memberEdits FieldPromotion.promote
  cases c.constructor? with
  | none => simp [Except.map]
  | some k =>
    by_cases hp : k.parameters.isEmpty = true
    · simp [hp, Except.map]
    · simp only [hp, Bool.false_eq_true, if_false]
      cases FieldPromotion.obstacle? k with
      | some obstacle => rfl
      | none =>
        cases FieldPromotion.planFields r.accessorFunction c with
        | error refusal => rfl
        | ok fields => simp [Except.map, EditLog.foldl_push]

/-- A class with parameters that can be migrated takes the edits of `FieldPromotion.edits`. -/
theorem memberEdits_eq_ok {es : List PlannedEdit} (hp : c.parameters.isEmpty = false)
    (h : memberEdits r c = .ok es) :
    ∃ k fields, c.constructor? = some k ∧
      FieldPromotion.planFields r.accessorFunction c = .ok fields ∧
      es = FieldPromotion.edits c k fields := by
  unfold memberEdits FieldPromotion.promote at h
  cases hk : c.constructor? with
  | none => simp [ClassDecl.parameters, hk] at hp
  | some k =>
    have hkp : k.parameters.isEmpty = false := by simpa [ClassDecl.parameters, hk] using hp
    simp only [hk, hkp, Bool.false_eq_true, if_false] at h
    cases ho : FieldPromotion.obstacle? k with
    | some obstacle => simp [ho, Except.map] at h
    | none =>
      cases hf : FieldPromotion.planFields r.accessorFunction c with
      | error refusal => simp [ho, hf, Except.map] at h
      | ok fields =>
        refine ⟨k, fields, rfl, rfl, ?_⟩
        simpa [ho, hf, Except.map, EditLog.foldl_push] using h.symm

theorem memberEdits_of_isEmpty (hp : c.parameters.isEmpty = true) : memberEdits r c = .ok [] := by
  unfold memberEdits FieldPromotion.promote
  cases hk : c.constructor? with
  | none => rfl
  | some k =>
    have hkp : k.parameters.isEmpty = true := by simpa [ClassDecl.parameters, hk] using hp
    simp [hkp, Except.map]

theorem length_removalRanges (start stop : Nat) (ps : List Parameter) :
    (FieldPromotion.removalRanges start stop ps).length = ps.length := by
  induction ps generalizing start with
  | nil => rfl
  | cons p ps ih =>
    -- the last range ends with the list, any other one where the next parameter begins
    cases ps with
    | nil => rfl
    | cons next rest => simp [FieldPromotion.removalRanges, ih]

/-- The edits of a class are its insertion and one removal for each parameter. -/
theorem length_edits (k : Constructor) (fields : List Field) :
    (FieldPromotion.edits c k fields).length = 1 + k.parameters.length := by
  simp [FieldPromotion.edits, length_removalRanges]
  omega

/-- The edits for the members of a class belong to its file, and none of them adds an import. -/
theorem mem_edits {k : Constructor} {fields : List Field} {e : PlannedEdit}
    (he : e ∈ FieldPromotion.edits c k fields) :
    e.file = c.file ∧ ∀ moduleName name, e.purpose ≠ .addNamedImport moduleName name := by
  simp only [FieldPromotion.edits, List.mem_cons] at he
  rcases he with rfl | he
  · exact ⟨rfl, by simp⟩
  · rw [← List.map_uncurry_zip_eq_zipWith] at he
    obtain ⟨x, -, rfl⟩ := List.mem_map.mp he
    exact ⟨rfl, fun _ _ h => by cases h⟩

theorem mem_classEdits {e : PlannedEdit} (he : e ∈ classEdits r c) :
    e.file = c.file ∧ ∀ moduleName name, e.purpose ≠ .addNamedImport moduleName name := by
  unfold classEdits at he
  cases hm : memberEdits r c with
  | error refusal => simp [hm, editsOrNone] at he
  | ok es =>
    simp only [hm, editsOrNone] at he
    by_cases hp : c.parameters.isEmpty = true
    · rw [memberEdits_of_isEmpty hp] at hm
      cases hm
      simp at he
    · obtain ⟨k, fields, -, -, rfl⟩ := memberEdits_eq_ok (by simpa using hp) hm
      exact mem_edits he

/-! ## The fate -/

theorem fateOf_migrated_iff : fateOf r u c = .migrated ↔
    c.parameters.isEmpty = false ∧ (∃ es, surfaceEdits r u = .ok es) ∧ ∃ es, memberEdits r c = .ok es := by
  unfold fateOf
  by_cases hp : c.parameters.isEmpty = true
  · simp [hp]
  · simp only [hp, Bool.false_eq_true, if_false]
    cases surfaceEdits r u with
    | error refusal => simp
    | ok es => cases memberEdits r c <;> simp

/-- A migrated class has one edit for its fields and one for each parameter. -/
theorem length_classEdits (h : fateOf r u c = .migrated) :
    (classEdits r c).length = 1 + c.parameters.length := by
  obtain ⟨hp, -, es, hes⟩ := fateOf_migrated_iff.mp h
  obtain ⟨k, fields, hk, -, rfl⟩ := memberEdits_eq_ok hp hes
  simp [classEdits, hes, editsOrNone, length_edits, ClassDecl.parameters, hk]

/-- The log has an import edit for a file only if the file takes one: what every log of a plan keeps. -/
def IsAmendedSoundly (r : Request) (log : EditLog) (u : SourceUnit) : Prop :=
  log.addsImport u.path r.accessorModule r.accessorFunction = true → importEdits r u ≠ []

/-- The import edit that a file still takes after a log. -/
def remainingImportEdits (r : Request) (log : EditLog) (u : SourceUnit) : List PlannedEdit :=
  if log.addsImport u.path r.accessorModule r.accessorFunction then [] else importEdits r u

/-- Reconciling is refused as without the log, or makes the log grow by the import edit that remains. -/
theorem reconcile_cases (h : IsAmendedSoundly r log u) :
    (∃ refusal, surfaceEdits r u = .error refusal ∧
      ImportSurface.reconcile r.accessorModule r.accessorFunction u log = .error refusal) ∨
    (∃ es outcome, surfaceEdits r u = .ok es ∧
      ImportSurface.reconcile r.accessorModule r.accessorFunction u log =
        .ok (log.extend (remainingImportEdits r log u), outcome)) := by
  unfold remainingImportEdits
  by_cases ha : log.addsImport u.path r.accessorModule r.accessorFunction = true
  · -- the log has the import edit, so by soundness one can be planned, and none remains
    right
    rw [reconcile_of_addsImport ha (h ha), surfaceEdits_ok_of_importEdits_ne_nil (h ha)]
    exact ⟨_, .alreadyImported, rfl, by simp [ha]⟩
  · -- the log says nothing of the file, and the result is that of `surfaceEdits` put into it
    have hlog := reconcile_of_not_addsImport (r := r) (by simpa using ha)
    cases hr : ImportSurface.reconcile r.accessorModule r.accessorFunction u log with
    | error refusal =>
      cases hs : surfaceEdits r u <;> simp_all [Except.map]
    | ok x =>
      obtain ⟨amended, outcome⟩ := x
      cases hs : surfaceEdits r u <;> simp_all [Except.map, importEdits, editsOrNone]

/-- Promoting is refused as without the log, or makes the log grow by the edits of the class. -/
theorem promote_cases (log : EditLog) :
    (∃ refusal, memberEdits r c = .error refusal ∧
      FieldPromotion.promote r.accessorFunction c log = .error refusal) ∨
    (∃ es outcome, memberEdits r c = .ok es ∧
      FieldPromotion.promote r.accessorFunction c log =
        .ok (log.extend (classEdits r c), outcome)) := by
  have hlog := promote_log (r := r) (c := c) log
  unfold classEdits
  cases hp : FieldPromotion.promote r.accessorFunction c log with
  | error refusal =>
    cases hm : memberEdits r c <;> simp_all [Except.map]
  | ok x =>
    obtain ⟨promoted, outcome⟩ := x
    cases hm : memberEdits r c <;> simp_all [Except.map, editsOrNone]

/-- What a verdict does to a plan, by the fate of the class. -/
def Plan.settle (r : Request) (p : Plan) (u : SourceUnit) (c : ClassDecl) : Fate → Plan
  | .skipped => { p with skipped := p.skipped + 1 }
  | .migrated =>
    { p with
      log := p.log.extend (remainingImportEdits r p.log u ++ classEdits r c)
      modified := p.modified + 1 }
  | .refused refusal => { p with failures := p.failures ++ [.ofRefusal c.file c.name refusal] }

/-- Planning a class gives it the fate that it has without the log, and a refusal leaves no edit behind: what was
recorded for the imports before the members were refused is cut off again. -/
theorem judge_spec (p : Plan) (h : IsAmendedSoundly r p.log u) :
    (judge r p.log u c).fate = fateOf r u c ∧
      p.record c (judge r p.log u c) = p.settle r u c (fateOf r u c) := by
  unfold judge fateOf
  by_cases hp : c.parameters.isEmpty = true
  · simp [hp, Verdict.fate, Plan.record, Plan.settle]
  simp only [hp, Bool.false_eq_true, if_false]
  rcases reconcile_cases h with ⟨refusal, hs, hr⟩ | ⟨es, outcome, hs, hr⟩
  · simp [hr, hs, Verdict.fate, Plan.record, Plan.refuse, Plan.settle]
  · rcases promote_cases (r := r) (c := c) (p.log.extend (remainingImportEdits r p.log u)) with
      ⟨refusal, hm, hpr⟩ | ⟨es', outcome', hm, hpr⟩
    · -- the log has grown by the import edit, and `Plan.refuse` cuts exactly that off
      simp [hr, hs, hm, hpr, Verdict.fate, Plan.record, Plan.refuse, Plan.settle]
    · simp [hr, hs, hm, hpr, Verdict.fate, Plan.record, Plan.settle]

theorem judge_fate (h : IsAmendedSoundly r log u) : (judge r log u c).fate = fateOf r u c :=
  (judge_spec ⟨log, 0, 0, []⟩ h).1

/-- What planning one more class does to a plan. -/
theorem add_eq (p : Plan) (h : IsAmendedSoundly r p.log u) :
    p.add r (u, c) = p.settle r u c (fateOf r u c) :=
  (judge_spec p h).2

end

end FieldInjection
