import FieldInjection.ImportSurface
import FieldInjection.TypeScript.SourceFile
import FieldInjection.Proofs.Edit.Files

/-!
# Calls on the import surfaces of files

Files are reconciled one after the other, some of them again and again, and the log of each call is handed to the
next. Whether a file is settled, so that nothing is left to do for it, is read from its imports and from the log's
edits for it (`isSettled`). A log only grows, so a settled file stays settled, and a file that is told apart from the
others by its path is settled alike whatever the others do in between. `reconcile_calls` says what follows for all
calls.
-/

namespace FieldInjection.ImportSurface

/-- A call on a file: the log before it, its answer, and the log behind it. -/
structure Call where
  unit : SourceUnit
  before : EditLog
  answer : Except Refusal Outcome
  after : EditLog

/-- A call on a file. If it is refused, the log is handed on as it was. -/
def call (moduleName name : String) (log : EditLog) (u : SourceUnit) : Call :=
  match reconcile moduleName name u log with
  | .error refusal => ⟨u, log, .error refusal, log⟩
  | .ok (log', outcome) => ⟨u, log, .ok outcome, log'⟩

/-- The calls on some files, one after the other. -/
def calls (moduleName name : String) (log : EditLog) : List SourceUnit → List Call
  | [] => []
  | u :: us => call moduleName name log u :: calls moduleName name (call moduleName name log u).after us

/-- The log behind the calls on some files. -/
def logAfter (moduleName name : String) (log : EditLog) (us : List SourceUnit) : EditLog :=
  us.foldl (fun log u => (call moduleName name log u).after) log

/-- The answer to the first of some calls that is on the given file. -/
def firstAnswer? (moduleName name : String) (log : EditLog) (us : List SourceUnit) (u : SourceUnit) :
    Option (Except Refusal Outcome) :=
  ((calls moduleName name log us).find? fun c => c.unit = u).map Call.answer

/-- Nothing is left to do for a file. -/
def isSettled (moduleName name : String) (log : EditLog) (u : SourceUnit) : Bool :=
  !(u.importsFrom moduleName).isEmpty &&
    ((u.importsFrom moduleName).any (fun i => i.binds name) || log.addsImport u.path moduleName name)

section
variable {moduleName name : String} {log log' : EditLog} {u v : SourceUnit} {us vs : List SourceUnit} {c : Call} {file : Path}

/-! ## One call -/

theorem reconcile_eq (moduleName name : String) (log : EditLog) (u : SourceUnit) : reconcile moduleName name u log =
    if isSettled moduleName name log u then .ok (log, .alreadyImported)
    else
      match amend name (u.importsFrom moduleName) with
      | .error obstacle => .error (.missingImportSurface u.path moduleName obstacle.message)
      | .ok edit => .ok (log.push ⟨u.path, .addNamedImport moduleName name, edit⟩, .amended) :=
  rfl

theorem call_eq (moduleName name : String) (log : EditLog) (u : SourceUnit) : call moduleName name log u =
    if isSettled moduleName name log u then ⟨u, log, .ok .alreadyImported, log⟩
    else
      match amend name (u.importsFrom moduleName) with
      | .error obstacle => ⟨u, log, .error (.missingImportSurface u.path moduleName obstacle.message), log⟩
      | .ok edit => ⟨u, log, .ok .amended, log.push ⟨u.path, .addNamedImport moduleName name, edit⟩⟩ := by
  rw [call, reconcile_eq]
  cases isSettled moduleName name log u with
  | true => rfl
  | false => cases amend name (u.importsFrom moduleName) <;> rfl

@[simp] theorem unit_call (moduleName name : String) (log : EditLog) (u : SourceUnit) :
    (call moduleName name log u).unit = u := by
  unfold call
  split <;> rfl

@[simp] theorem before_call (moduleName name : String) (log : EditLog) (u : SourceUnit) :
    (call moduleName name log u).before = log := by
  unfold call
  split <;> rfl

theorem reconcile_eq_map (moduleName name : String) (log : EditLog) (u : SourceUnit) :
    reconcile moduleName name u log =
      (call moduleName name log u).answer.map fun outcome => ((call moduleName name log u).after, outcome) := by
  unfold call
  cases reconcile moduleName name u log <;> rfl

/-- All that a call can do. -/
theorem call_cases (moduleName name : String) (log : EditLog) (u : SourceUnit) :
    (isSettled moduleName name log u = false ∧
      ∃ refusal, call moduleName name log u = ⟨u, log, .error refusal, log⟩) ∨
    (isSettled moduleName name log u = true ∧
      call moduleName name log u = ⟨u, log, .ok .alreadyImported, log⟩) ∨
    isSettled moduleName name log u = false ∧ (u.importsFrom moduleName).isEmpty = false ∧ ∃ edit,
      call moduleName name log u =
        ⟨u, log, .ok .amended, log.push ⟨u.path, .addNamedImport moduleName name, edit⟩⟩ := by
  rw [call_eq]
  cases isSettled moduleName name log u with
  | true => exact Or.inr (Or.inl ⟨rfl, rfl⟩)
  | false =>
    cases hamend : amend name (u.importsFrom moduleName) with
    | error obstacle => exact Or.inl ⟨rfl, _, rfl⟩
    | ok edit =>
      obtain ⟨i, hi, -⟩ := amend_eq_ok hamend
      exact Or.inr (Or.inr ⟨rfl, by simpa using List.ne_nil_of_mem hi, edit, rfl⟩)

theorem addsImport_eq_any (log : EditLog) (file : Path) (moduleName name : String) : log.addsImport file moduleName name =
    (log.forFile file).any fun e => e.purpose == .addNamedImport moduleName name := by
  simp [EditLog.addsImport, EditLog.forFile, List.any_filter]

theorem addsImport_congr {p q : Path} (h : p.same q = true) :
    log.addsImport p moduleName name = log.addsImport q moduleName name := by
  rw [addsImport_eq_any, addsImport_eq_any, EditLog.forFile_congr log h]

theorem addsImport_push_self (edit : TextEdit) :
    (log.push ⟨u.path, .addNamedImport moduleName name, edit⟩).addsImport u.path moduleName name = true := by
  simp [EditLog.addsImport, EditLog.push]

/-- A file that is not settled although it has imports from the module has no import edit yet. -/
theorem addsImport_of_not_isSettled (h : isSettled moduleName name log u = false)
    (hne : (u.importsFrom moduleName).isEmpty = false) : log.addsImport u.path moduleName name = false := by
  simp only [isSettled, hne, Bool.not_false, Bool.true_and, Bool.or_eq_false_iff] at h
  exact h.2

/-- A call only adds to the log. -/
theorem exists_after_eq (moduleName name : String) (log : EditLog) (u : SourceUnit) :
    ∃ es, (call moduleName name log u).after = log.extend es := by
  rcases call_cases moduleName name log u with ⟨-, refusal, hcall⟩ | ⟨-, hcall⟩ | ⟨-, -, edit, hcall⟩
  · exact ⟨[], by rw [hcall, EditLog.extend_nil]⟩
  · exact ⟨[], by rw [hcall, EditLog.extend_nil]⟩
  · exact ⟨[_], by rw [hcall]; rfl⟩

/-- A file that is settled stays so as the log grows. -/
theorem isSettled_extend (h : isSettled moduleName name log u = true) (es : List PlannedEdit) :
    isSettled moduleName name (log.extend es) u = true := by
  simp only [isSettled, Bool.and_eq_true, Bool.or_eq_true, EditLog.addsImport_extend] at h ⊢
  exact ⟨h.1, h.2.imp id Or.inl⟩

/-- A file for which a call was not refused is settled. -/
theorem isSettled_after {outcome : Outcome} (h : (call moduleName name log u).answer = .ok outcome) :
    isSettled moduleName name (call moduleName name log u).after u = true := by
  rcases call_cases moduleName name log u with ⟨-, refusal, hcall⟩ | ⟨hsettled, hcall⟩ | ⟨-, hne, edit, hcall⟩
  · rw [hcall] at h
    cases h
  · rw [hcall]
    exact hsettled
  · rw [hcall]
    simp [isSettled, hne, addsImport_push_self]

theorem answer_of_isSettled (h : isSettled moduleName name log u = true) :
    (call moduleName name log u).answer = .ok .alreadyImported ∧ (call moduleName name log u).after = log := by
  rcases call_cases moduleName name log u with ⟨hopen, -⟩ | ⟨-, hcall⟩ | ⟨hopen, -⟩
  · rw [h] at hopen
    cases hopen
  · rw [hcall]
    exact ⟨rfl, rfl⟩
  · rw [h] at hopen
    cases hopen

/-- A second call on a file leaves the log as the first one did. -/
theorem after_after (moduleName name : String) (log : EditLog) (u : SourceUnit) :
    (call moduleName name (call moduleName name log u).after u).after = (call moduleName name log u).after := by
  rcases call_cases moduleName name log u with ⟨-, refusal, hcall⟩ | ⟨hsettled, hcall⟩ | ⟨-, -, edit, hcall⟩
  · simp only [hcall]
  · simp only [hcall]
  · exact (answer_of_isSettled (isSettled_after (by rw [hcall]))).2

/-! ## Calls one after the other -/

/-- Each of some calls is on one of the files, with a log that goes on from the first one. -/
theorem mem_calls (h : c ∈ calls moduleName name log us) :
    c.unit ∈ us ∧ (∃ es, c.before = log.extend es) ∧ c = call moduleName name c.before c.unit := by
  induction us generalizing log with
  | nil => cases h
  | cons u us ih =>
    rcases List.mem_cons.mp h with rfl | h
    · exact ⟨by simp, ⟨[], by simp⟩, by simp⟩
    · obtain ⟨hunit, ⟨es, hbefore⟩, hcall⟩ := ih h
      obtain ⟨ds, hafter⟩ := exists_after_eq moduleName name log u
      refine ⟨List.mem_cons_of_mem u hunit, ⟨ds ++ es, ?_⟩, hcall⟩
      rw [hbefore, hafter, EditLog.extend_extend]

/-- A call that amends a file finds no import edit for its path and adds one. -/
theorem call_of_amended (h : (call moduleName name log u).answer = .ok .amended) :
    log.addsImport u.path moduleName name = false ∧ ∃ edit, (call moduleName name log u).after =
      log.push ⟨u.path, .addNamedImport moduleName name, edit⟩ := by
  rcases call_cases moduleName name log u with ⟨-, refusal, hcall⟩ | ⟨-, hcall⟩ | ⟨hopen, hne, edit, hcall⟩
  · rw [hcall] at h
    cases h
  · rw [hcall] at h
    cases h
  · exact ⟨addsImport_of_not_isSettled hopen hne, edit, by rw [hcall]⟩

/-- Once a log has an import edit for a path, no call amends a file at that path. -/
theorem not_amended_of_addsImport {p : Path} (hlog : log.addsImport p moduleName name = true)
    (hc : c ∈ calls moduleName name log us) (hsame : p.same c.unit.path = true) : c.answer ≠ .ok .amended := by
  obtain ⟨-, ⟨es, hbefore⟩, hcall⟩ := mem_calls hc
  intro hamended
  rw [hcall] at hamended
  have hnone := (call_of_amended hamended).1
  rw [hbefore, EditLog.addsImport_extend, ← addsImport_congr hsame, hlog] at hnone
  cases hnone

/-- A path is amended at most once. -/
theorem pairwise_amended (log : EditLog) (us : List SourceUnit) : (calls moduleName name log us).Pairwise fun c d =>
    c.answer = .ok .amended → d.answer = .ok .amended → c.unit.path.same d.unit.path = false := by
  induction us generalizing log with
  | nil => exact List.Pairwise.nil
  | cons u us ih =>
    refine List.pairwise_cons.mpr ⟨?_, ih _⟩
    intro d hd hamended hagain
    rw [← Bool.not_eq_true]
    intro hsame
    -- the edit for the path is in the log when the second call is made
    obtain ⟨-, edit, hafter⟩ := call_of_amended hamended
    rw [unit_call] at hsame
    refine not_amended_of_addsImport ?_ hd hsame hagain
    rw [hafter]
    exact addsImport_push_self edit

/-- Whatever call on a file was not refused, the later ones on it find the accessor imported. -/
theorem pairwise_settled (log : EditLog) (us : List SourceUnit) : (calls moduleName name log us).Pairwise fun c d =>
    c.unit = d.unit → (∃ outcome, c.answer = .ok outcome) → d.answer = .ok .alreadyImported := by
  induction us generalizing log with
  | nil => exact List.Pairwise.nil
  | cons u us ih =>
    refine List.pairwise_cons.mpr ⟨?_, ih _⟩
    rintro d hd hunit ⟨outcome, hok⟩
    obtain ⟨-, ⟨es, hbefore⟩, hcall⟩ := mem_calls hd
    rw [hcall]
    refine (answer_of_isSettled ?_).1
    rw [hbefore, ← hunit, unit_call]
    exact isSettled_extend (isSettled_after hok) es

/-! ## Files that are told apart by their paths -/

/-- A call depends on the log only through its edits for the file. -/
theorem call_congr (h : log.forFile u.path = log'.forFile u.path) :
    (call moduleName name log u).answer = (call moduleName name log' u).answer ∧
      (call moduleName name log u).after.forFile u.path = (call moduleName name log' u).after.forFile u.path := by
  have hsettled : isSettled moduleName name log u = isSettled moduleName name log' u := by
    rw [isSettled, isSettled, addsImport_eq_any, addsImport_eq_any, h]
  rw [call_eq, call_eq, hsettled]
  split_ifs
  · exact ⟨rfl, h⟩
  · cases amend name (u.importsFrom moduleName) with
    | error obstacle => exact ⟨rfl, h⟩
    | ok edit => exact ⟨rfl, by rw [EditLog.forFile_push, EditLog.forFile_push, h]⟩

theorem forFile_call_other (h : u.path.same file = false) :
    (call moduleName name log u).after.forFile file = log.forFile file := by
  rcases call_cases moduleName name log u with ⟨-, refusal, hcall⟩ | ⟨-, hcall⟩ | ⟨-, -, edit, hcall⟩
  · rw [hcall]
  · rw [hcall]
  · rw [hcall, EditLog.forFile_push, if_neg (by simp [h]), List.append_nil]

theorem forFile_logAfter_other (h : ∀ v ∈ us, v.path.same file = false) :
    (logAfter moduleName name log us).forFile file = log.forFile file := by
  induction us generalizing log with
  | nil => rfl
  | cons u us ih =>
    exact (ih fun v hv => h v (List.mem_cons_of_mem u hv)).trans (forFile_call_other (h u List.mem_cons_self))

/-- The only file at its path gets the edits of one call on it, however many calls there are and whatever other files
are called on. -/
theorem forFile_logAfter (hu : u ∈ us) (honly : ∀ v ∈ us, v.path.same u.path = true → v = u) :
    (logAfter moduleName name log us).forFile u.path = (call moduleName name log u).after.forFile u.path := by
  induction us generalizing log with
  | nil => cases hu
  | cons v us ih =>
    have honly' : ∀ w ∈ us, w.path.same u.path = true → w = u := fun w hw => honly w (List.mem_cons_of_mem v hw)
    show (logAfter moduleName name (call moduleName name log v).after us).forFile u.path = _
    by_cases hv : v = u
    · subst hv
      by_cases hagain : v ∈ us
      · rw [ih hagain honly', after_after]
      · refine forFile_logAfter_other fun w hw => ?_
        rw [← Bool.not_eq_true]
        intro hsame
        exact hagain (honly' w hw hsame ▸ hw)
    · have hus : u ∈ us := (List.mem_cons.mp hu).resolve_left fun heq => hv heq.symm
      have hother : v.path.same u.path = false := by
        rw [← Bool.not_eq_true]
        exact fun hsame => hv (honly v List.mem_cons_self hsame)
      rw [ih hus honly']
      exact (call_congr (forFile_call_other hother)).2

/-- The first answer for the only file at its path is that of a call on it alone. -/
theorem firstAnswer?_eq (hu : u ∈ us) (honly : ∀ v ∈ us, v.path.same u.path = true → v = u) :
    firstAnswer? moduleName name log us u = some (call moduleName name log u).answer := by
  induction us generalizing log with
  | nil => cases hu
  | cons v us ih =>
    unfold firstAnswer? calls
    by_cases hv : v = u
    · subst hv
      rw [List.find?_cons_of_pos (by simp)]
      rfl
    · have hus : u ∈ us := (List.mem_cons.mp hu).resolve_left fun heq => hv heq.symm
      have hother : v.path.same u.path = false := by
        rw [← Bool.not_eq_true]
        exact fun hsame => hv (honly v List.mem_cons_self hsame)
      rw [List.find?_cons_of_neg (by simpa using hv)]
      refine (ih hus fun w hw => honly w (List.mem_cons_of_mem v hw)).trans ?_
      rw [(call_congr (forFile_call_other hother)).1]

theorem firstAnswer?_of_not_mem (hu : u ∉ us) : firstAnswer? moduleName name log us u = none := by
  unfold firstAnswer?
  rw [List.find?_eq_none.mpr, Option.map_none]
  intro c hc hunit
  simp only [decide_eq_true_eq] at hunit
  exact hu (hunit ▸ (mem_calls hc).1)

end

/-- **Calls in any number and order**: a call that does not amend its file leaves the log as it was; one that does
finds no edit of the log that imports the name from the module at the path of the file, adds one such edit, and is the
only one for the path. Once a call on a file was not refused, all later ones on it find the name imported. Where files
are told apart by their paths, calls on the same files in another order or number give each file the same edits and
the same first answer, and the log the same files.
-/
theorem reconcile_calls (moduleName name : String) (log : EditLog) (us vs : List SourceUnit) :
    (∀ c ∈ calls moduleName name log us,
      reconcile moduleName name c.unit c.before = (c.answer.map fun outcome => (c.after, outcome)) ∧
      ((c.answer = .ok .amended ∧ log.addsImport c.unit.path moduleName name = false ∧
          ∃ edit, c.after = c.before.push ⟨c.unit.path, .addNamedImport moduleName name, edit⟩) ∨
        (c.answer = .ok .alreadyImported ∨ ∃ refusal, c.answer = .error refusal) ∧ c.after = c.before)) ∧
    ((calls moduleName name log us).Pairwise fun c d =>
      c.answer = .ok .amended → d.answer = .ok .amended → c.unit.path.same d.unit.path = false) ∧
    ((calls moduleName name log us).Pairwise fun c d =>
      c.unit = d.unit → (∃ outcome, c.answer = .ok outcome) → d.answer = .ok .alreadyImported) ∧
    ((∀ u, u ∈ us ↔ u ∈ vs) → (∀ u ∈ us, ∀ v ∈ us, u.path.same v.path = true → u = v) →
      (∀ file, (logAfter moduleName name log us).forFile file = (logAfter moduleName name log vs).forFile file) ∧
        (∀ u, firstAnswer? moduleName name log us u = firstAnswer? moduleName name log vs u) ∧
          (logAfter moduleName name log us).files = (logAfter moduleName name log vs).files) := by
  refine ⟨?_, pairwise_amended log us, pairwise_settled log us, ?_⟩
  · intro c hc
    obtain ⟨-, ⟨es, hbefore⟩, hcall⟩ := mem_calls hc
    have hstep := reconcile_eq_map moduleName name c.before c.unit
    rw [← hcall] at hstep
    refine ⟨hstep, ?_⟩
    rcases call_cases moduleName name c.before c.unit with ⟨-, refusal, hc'⟩ | ⟨-, hc'⟩ | ⟨hopen, hne, edit, hc'⟩
    · rw [← hcall] at hc'
      exact Or.inr ⟨Or.inr ⟨refusal, by rw [hc']⟩, by rw [hc']⟩
    · rw [← hcall] at hc'
      exact Or.inr ⟨Or.inl (by rw [hc']), by rw [hc']⟩
    · -- the log has no import edit for the path, and so the one from which it has grown has none
      have hnone := addsImport_of_not_isSettled hopen hne
      rw [hbefore, EditLog.addsImport_extend, Bool.or_eq_false_iff] at hnone
      rw [← hcall] at hc'
      exact Or.inl ⟨by rw [hc'], hnone.1, edit, by rw [hc']⟩
  · -- what a file is given depends on the log and on whether it is called at all
    intro hsame hdistinct
    have hus : ∀ u ∈ us, ∀ v ∈ us, v.path.same u.path = true → v = u := fun u hu v hv h => hdistinct v hv u hu h
    have hvs : ∀ u ∈ us, ∀ v ∈ vs, v.path.same u.path = true → v = u :=
      fun u hu v hv h => hdistinct v ((hsame v).mpr hv) u hu h
    have hfiles : ∀ file, (logAfter moduleName name log us).forFile file =
        (logAfter moduleName name log vs).forFile file := by
      intro file
      by_cases hfile : ∃ u ∈ us, u.path.same file = true
      · obtain ⟨u, hu, hpath⟩ := hfile
        rw [← EditLog.forFile_congr _ hpath, ← EditLog.forFile_congr _ hpath, forFile_logAfter hu (hus u hu),
          forFile_logAfter ((hsame u).mp hu) (hvs u hu)]
      · have hother : ∀ u ∈ us, u.path.same file = false := by simpa using hfile
        rw [forFile_logAfter_other hother, forFile_logAfter_other fun v hv => hother v ((hsame v).mpr hv)]
    refine ⟨hfiles, fun u => ?_, EditLog.files_congr hfiles⟩
    by_cases hu : u ∈ us
    · rw [firstAnswer?_eq hu (hus u hu), firstAnswer?_eq ((hsame u).mp hu) (hvs u hu)]
    · rw [firstAnswer?_of_not_mem hu, firstAnswer?_of_not_mem fun hv => hu ((hsame u).mpr hv)]

/-- A file whose list of names can carry the accessor. -/
def listFile : SourceUnit := TypeScript.readUnit ⟨"/p/a.ts"⟩ ⟨"a.ts"⟩ "import { C } from 'm';"

/-- A file that imports the accessor as a type. -/
def typeFile : SourceUnit := TypeScript.readUnit ⟨"/p/b.ts"⟩ ⟨"b.ts"⟩ "import type { inject } from 'm';"

/-- Two files in two orders, one of them called on twice: one edit, and one refusal. -/
theorem reconcile_calls_two_files :
    (∀ u, u ∈ [listFile, typeFile, listFile] ↔ u ∈ [typeFile, listFile]) ∧
    (∀ u ∈ [listFile, typeFile, listFile], ∀ v ∈ [listFile, typeFile, listFile],
      u.path.same v.path = true → u = v) ∧
    (logAfter "m" "inject" .empty [listFile, typeFile, listFile]).files =
      (logAfter "m" "inject" .empty [typeFile, listFile]).files ∧
    (calls "m" "inject" .empty [listFile, typeFile, listFile]).map Call.answer =
      [.ok .amended, .error (.missingImportSurface ⟨"/p/b.ts"⟩ "m" (Obstacle.importedAsType "inject").message),
        .ok .alreadyImported] := by
  have hsame : ∀ u, u ∈ [listFile, typeFile, listFile] ↔ u ∈ [typeFile, listFile] := by
    intro u
    simp only [List.mem_cons, List.not_mem_nil, or_false]
    tauto
  have hdistinct : ∀ u ∈ [listFile, typeFile, listFile], ∀ v ∈ [listFile, typeFile, listFile],
      u.path.same v.path = true → u = v := by decide +kernel
  refine ⟨hsame, hdistinct, ?_, by decide +kernel⟩
  exact ((reconcile_calls "m" "inject" .empty _ _).2.2.2 hsame hdistinct).2.2

end FieldInjection.ImportSurface
