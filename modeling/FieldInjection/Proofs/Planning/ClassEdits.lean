import FieldInjection.Proofs.Edit.Weave
import FieldInjection.Proofs.Planning.Fate

/-!
# The edits of a migrated class

They are one insertion behind the opening brace of the body and deletions that tile the parameter list. Where the
offsets of the class are in order, the edits are apart from one another (`pairwise_classEdits`), and together they
insert the block of fields (`insertedBy_classEdits`) and remove what stands between the parentheses, all of it and
nothing else (`removedBy_classEdits`).
-/

namespace FieldInjection

/-- The offsets of a constructor, in a class whose body begins at `bodyStart`, are boundaries of the text and in
order. -/
structure Constructor.IsLaidOut (text : List Char) (bodyStart : Nat) (k : Constructor) : Prop where
  bodyStart_boundary : isBoundary text bodyStart = true
  bodyStart_le : bodyStart ≤ k.parameterList.start
  start_boundary : isBoundary text k.parameterList.start = true
  stop_boundary : isBoundary text k.parameterList.stop = true
  parameter_boundary : ∀ q ∈ k.parameters, isBoundary text q.range.start = true
  start_le : ∀ q ∈ k.parameters, k.parameterList.start ≤ q.range.start
  le_stop : ∀ q ∈ k.parameters, q.range.start ≤ k.parameterList.stop
  ascending : k.parameters.Pairwise fun q q' => q.range.start < q'.range.start

instance (a b : TextRange) : Decidable (a.IsApartFrom b) :=
  inferInstanceAs (Decidable (a.stop ≤ b.start ∨ b.stop ≤ a.start))

instance (text : List Char) (bodyStart : Nat) (k : Constructor) : Decidable (k.IsLaidOut text bodyStart) :=
  decidable_of_iff
    ((isBoundary text bodyStart = true ∧ bodyStart ≤ k.parameterList.start ∧
        isBoundary text k.parameterList.start = true ∧ isBoundary text k.parameterList.stop = true) ∧
      (∀ q ∈ k.parameters, isBoundary text q.range.start = true) ∧
      (∀ q ∈ k.parameters, k.parameterList.start ≤ q.range.start) ∧
      (∀ q ∈ k.parameters, q.range.start ≤ k.parameterList.stop) ∧
      k.parameters.Pairwise fun q q' => q.range.start < q'.range.start)
    ⟨fun ⟨⟨h₁, h₂, h₃, h₄⟩, h₅, h₆, h₇, h₈⟩ => ⟨h₁, h₂, h₃, h₄, h₅, h₆, h₇, h₈⟩,
      fun ⟨h₁, h₂, h₃, h₄, h₅, h₆, h₇, h₈⟩ => ⟨⟨h₁, h₂, h₃, h₄⟩, h₅, h₆, h₇, h₈⟩⟩

namespace ClassDecl

/-- What stands between the parentheses of the constructor; nothing without one. -/
def parameterList (c : ClassDecl) : TextRange :=
  match c.constructor? with
  | some k => k.parameterList
  | none => .empty c.bodyStart

/-- The offsets of the class's constructor, if there is one, are boundaries of the text and in order. -/
def IsLaidOut (text : List Char) (c : ClassDecl) : Prop :=
  ∀ k ∈ c.constructor?, k.IsLaidOut text c.bodyStart

instance (text : List Char) (c : ClassDecl) : Decidable (c.IsLaidOut text) :=
  inferInstanceAs (Decidable (∀ k ∈ c.constructor?, k.IsLaidOut text c.bodyStart))

/-- Neither the beginning of the class body nor the parameter list stands in a range, or the other way round. -/
structure IsApartFrom (c : ClassDecl) (range : TextRange) : Prop where
  bodyStart : (TextRange.empty c.bodyStart).IsApartFrom range
  parameterList : c.parameterList.IsApartFrom range

/-- Neither class has its body begin in the other's parameter list, and the lists do not overlap. -/
structure AreApart (c d : ClassDecl) : Prop where
  left : c.IsApartFrom d.parameterList
  right : (TextRange.empty d.bodyStart).IsApartFrom c.parameterList

instance (c : ClassDecl) (range : TextRange) : Decidable (c.IsApartFrom range) :=
  decidable_of_iff
    ((TextRange.empty c.bodyStart).IsApartFrom range ∧ c.parameterList.IsApartFrom range)
    ⟨fun ⟨h₁, h₂⟩ => ⟨h₁, h₂⟩, fun ⟨h₁, h₂⟩ => ⟨h₁, h₂⟩⟩

instance (c d : ClassDecl) : Decidable (c.AreApart d) :=
  decidable_of_iff
    (c.IsApartFrom d.parameterList ∧ (TextRange.empty d.bodyStart).IsApartFrom c.parameterList)
    ⟨fun ⟨h₁, h₂⟩ => ⟨h₁, h₂⟩, fun ⟨h₁, h₂⟩ => ⟨h₁, h₂⟩⟩

end ClassDecl

/-- The text of the field that a parameter becomes. -/
def promotedField (r : Request) (c : ClassDecl) (q : Parameter) : String :=
  match FieldPromotion.fieldOf r.accessorFunction c.name q with
  | .ok field => field.render
  | .error _ => ""

/-- What is inserted at the beginning of a class body: for each parameter in order a line with its field, and a
line ending before the members if there are any. -/
def promotedBlock (r : Request) (c : ClassDecl) : String :=
  String.join (c.parameters.map fun q => c.lineEnding.text ++ c.memberIndent ++ promotedField r c q) ++
    if c.hasMembers then c.lineEnding.text else ""

section
variable {r : Request} {u : SourceUnit} {c : ClassDecl} {text : List Char}

/-! ## The deletions -/

theorem TextRange.IsApartFrom.mono {a b t : TextRange} (h : a.IsApartFrom b) (hstart : b.start ≤ t.start)
    (hstop : t.stop ≤ b.stop) : a.IsApartFrom t := by
  rcases h with h | h
  · exact Or.inl (by omega)
  · exact Or.inr (by omega)

/-- Parameters that begin one behind the other between two offsets. -/
def AreAscending (start stop : Nat) (qs : List Parameter) : Prop :=
  (∀ q ∈ qs, start ≤ q.range.start ∧ q.range.start ≤ stop) ∧
    qs.Pairwise fun q q' => q.range.start < q'.range.start

theorem areAscending_tail {start stop : Nat} {q next : Parameter} {qs : List Parameter}
    (h : AreAscending start stop (q :: next :: qs)) : AreAscending next.range.start stop (next :: qs) := by
  obtain ⟨hbounds, hpairs⟩ := h
  have hrest := (List.pairwise_cons.mp hpairs).2
  refine ⟨?_, hrest⟩
  intro x hx
  refine ⟨?_, (hbounds x (List.mem_cons_of_mem q hx)).2⟩
  rcases List.mem_cons.mp hx with rfl | hx
  · exact Nat.le_refl _
  · exact Nat.le_of_lt ((List.pairwise_cons.mp hrest).1 x hx)

/-- A removal lies in the parameter list, and its ends are the list's or beginnings of parameters. -/
theorem mem_removalRanges {start stop : Nat} {qs : List Parameter} (h : AreAscending start stop qs)
    {t : TextRange} (ht : t ∈ FieldPromotion.removalRanges start stop qs) :
    (start ≤ t.start ∧ t.start ≤ t.stop ∧ t.stop ≤ stop) ∧
      (t.start = start ∨ ∃ q ∈ qs, t.start = q.range.start) ∧
      (t.stop = stop ∨ ∃ q ∈ qs, t.stop = q.range.start) := by
  -- as `removalRanges` recurs: the list that is left begins where the next parameter does
  induction qs generalizing start with
  | nil => cases ht
  | cons q qs ih =>
    cases qs with
    | nil =>
      obtain rfl := List.mem_singleton.mp ht
      have := h.1 q List.mem_cons_self
      exact ⟨⟨Nat.le_refl _, Nat.le_trans this.1 this.2, Nat.le_refl _⟩, Or.inl rfl, Or.inl rfl⟩
    | cons next rest =>
      have hnext := h.1 next (by simp)
      rcases List.mem_cons.mp ht with rfl | ht
      · exact ⟨⟨Nat.le_refl _, hnext.1, hnext.2⟩, Or.inl rfl, Or.inr ⟨next, by simp, rfl⟩⟩
      · obtain ⟨hbounds, hstart, hstop⟩ := ih (areAscending_tail h) ht
        refine ⟨⟨by omega, hbounds.2.1, hbounds.2.2⟩, Or.inr ?_, ?_⟩
        · rcases hstart with hstart | ⟨x, hx, hstart⟩
          · exact ⟨next, by simp, hstart⟩
          · exact ⟨x, List.mem_cons_of_mem q hx, hstart⟩
        · rcases hstop with hstop | ⟨x, hx, hstop⟩
          · exact Or.inl hstop
          · exact Or.inr ⟨x, List.mem_cons_of_mem q hx, hstop⟩

/-- Each removal ends where or before the next one begins. -/
theorem pairwise_removalRanges {start stop : Nat} {qs : List Parameter} (h : AreAscending start stop qs) :
    (FieldPromotion.removalRanges start stop qs).Pairwise fun t t' => t.stop ≤ t'.start := by
  induction qs generalizing start with
  | nil => exact List.Pairwise.nil
  | cons q qs ih =>
    cases qs with
    | nil => exact List.pairwise_singleton _ _
    | cons next rest =>
      refine List.pairwise_cons.mpr ⟨?_, ih (areAscending_tail h)⟩
      intro t ht
      exact (mem_removalRanges (areAscending_tail h) ht).1.1

/-- Together the removals cover the parameter list and nothing else. -/
theorem any_removalRanges {start stop : Nat} {qs : List Parameter} (h : AreAscending start stop qs)
    (hne : qs ≠ []) (offset : Nat) :
    ((FieldPromotion.removalRanges start stop qs).any fun t => t.start ≤ offset && offset < t.stop) =
      (decide (start ≤ offset) && decide (offset < stop)) := by
  induction qs generalizing start with
  | nil => exact absurd rfl hne
  | cons q qs ih =>
    cases qs with
    | nil => simp [FieldPromotion.removalRanges]
    | cons next rest =>
      have hnext := h.1 next (by simp)
      rw [FieldPromotion.removalRanges, List.any_cons, ih (areAscending_tail h) (by simp),
        Bool.eq_iff_iff]
      simp only [Bool.or_eq_true, Bool.and_eq_true, decide_eq_true_eq]
      omega

theorem exists_first_removal (start stop : Nat) {qs : List Parameter} (hne : qs ≠ []) :
    ∃ t ∈ FieldPromotion.removalRanges start stop qs, t.start = start := by
  cases qs with
  | nil => exact absurd rfl hne
  | cons q qs => cases qs <;> exact ⟨_, List.mem_cons_self, rfl⟩

/-- A range that overlaps the parameter list overlaps a removal, unless it is an offset between two of them. -/
theorem exists_overlapping_removal {start stop : Nat} {qs : List Parameter} (h : AreAscending start stop qs)
    (hne : qs ≠ []) {range : TextRange} (hle : range.start ≤ range.stop)
    (hin : ¬ range.IsApartFrom ⟨start, stop⟩) (hstarts : ∀ q ∈ qs, range ≠ .empty q.range.start) :
    ∃ t ∈ FieldPromotion.removalRanges start stop qs, ¬ range.IsApartFrom t := by
  have hin' : start < range.stop ∧ range.start < stop := by
    simp only [TextRange.IsApartFrom] at hin
    omega
  rcases Nat.lt_or_ge range.start start with hbefore | hafter
  · -- the range begins before the list
    obtain ⟨t, ht, hstart⟩ := exists_first_removal start stop hne
    have hbounds := (mem_removalRanges h ht).1
    refine ⟨t, ht, ?_⟩
    simp only [TextRange.IsApartFrom]
    omega
  · -- the removal that covers the beginning of the range
    have hcovers := any_removalRanges h hne range.start
    rw [decide_eq_true hafter, decide_eq_true hin'.2, Bool.and_self, List.any_eq_true] at hcovers
    obtain ⟨t, ht, hcover⟩ := hcovers
    simp only [Bool.and_eq_true, decide_eq_true_eq] at hcover
    refine ⟨t, ht, ?_⟩
    have hmeets : t.start < range.stop := by
      rcases Nat.lt_or_ge range.start range.stop with hlt | hge
      · omega
      · -- the range is an offset inside the list, and not one where the removal could begin
        rcases (mem_removalRanges h ht).2.1 with hstart | ⟨q, hq, hstart⟩
        · omega
        · have hother : range.start ≠ q.range.start := by
            intro heq
            apply hstarts q hq
            cases range
            simp only [TextRange.empty, TextRange.mk.injEq] at *
            omega
          omega
    simp only [TextRange.IsApartFrom]
    omega

/-! ## The edits of one class -/

theorem map_promotedField {qs : List Parameter} {fields : List Field}
    (h : FieldPromotion.fieldsOf r.accessorFunction c.name qs = .ok fields) :
    fields.map Field.render = qs.map (promotedField r c) := by
  induction qs generalizing fields with
  | nil =>
    cases h
    rfl
  | cons q qs ih =>
    unfold FieldPromotion.fieldsOf at h
    cases hq : FieldPromotion.fieldOf r.accessorFunction c.name q with
    | error refusal => simp [hq] at h
    | ok field =>
      cases hqs : FieldPromotion.fieldsOf r.accessorFunction c.name qs with
      | error refusal => simp [hq, hqs] at h
      | ok rest =>
        simp only [hq, hqs, Except.ok.injEq] at h
        subst h
        simp [ih hqs, promotedField, hq]

theorem fieldBlock_eq_promotedBlock {fields : List Field}
    (h : FieldPromotion.planFields r.accessorFunction c = .ok fields) :
    FieldPromotion.fieldBlock c fields = promotedBlock r c := by
  have hfields := map_promotedField h
  unfold FieldPromotion.fieldBlock promotedBlock
  have hlines : (fields.map fun f => c.lineEnding.text ++ c.memberIndent ++ f.render) =
      c.parameters.map fun q => c.lineEnding.text ++ c.memberIndent ++ promotedField r c q := by
    have := congrArg (List.map fun line => c.lineEnding.text ++ c.memberIndent ++ line) hfields
    simpa [List.map_map, Function.comp_def] using this
  rw [hlines]

/-- A migrated class takes one insertion and the removals of its parameters. -/
theorem map_edit_classEdits (h : fateOf r u c = .migrated) : ∃ k, c.constructor? = some k ∧
    k.parameters ≠ [] ∧ (classEdits r c).map PlannedEdit.edit =
      .insert c.bodyStart (promotedBlock r c) ::
        (FieldPromotion.removalRanges k.parameterList.start k.parameterList.stop k.parameters).map
          TextEdit.delete := by
  obtain ⟨hp, -, es, hes⟩ := fateOf_migrated_iff.mp h
  obtain ⟨k, fields, hk, hfields, rfl⟩ := memberEdits_eq_ok hp hes
  refine ⟨k, hk, ?_, ?_⟩
  · intro hnil
    simp [ClassDecl.parameters, hk, hnil] at hp
  · have hlen := length_removalRanges k.parameterList.start k.parameterList.stop k.parameters
    simp only [classEdits, hes, editsOrNone, FieldPromotion.edits, List.map_cons, List.map_zipWith,
      fieldBlock_eq_promotedBlock hfields]
    congr 1
    -- there are as many removals as parameters, so pairing the two drops none
    rw [← List.map_uncurry_zip_eq_zipWith]
    have hsnd := List.map_snd_zip (Nat.le_of_eq hlen)
    calc _ = ((k.parameters.zip (FieldPromotion.removalRanges k.parameterList.start k.parameterList.stop
              k.parameters)).map Prod.snd).map TextEdit.delete := by
            rw [List.map_map]
            rfl
      _ = _ := by rw [hsnd]

/-- A migrated class has its fields inserted where its body begins. -/
theorem exists_insertion (h : fateOf r u c = .migrated) :
    ∃ e ∈ (classEdits r c).map PlannedEdit.edit, e.range = .empty c.bodyStart := by
  obtain ⟨k, -, -, hes⟩ := map_edit_classEdits h
  rw [hes]
  exact ⟨_, List.mem_cons_self, rfl⟩

theorem parameterList_eq {k : Constructor} (hk : c.constructor? = some k) :
    c.parameterList = k.parameterList := by
  simp [ClassDecl.parameterList, hk]

theorem areAscending_of_isLaidOut {bodyStart : Nat} {k : Constructor} (h : k.IsLaidOut text bodyStart) :
    AreAscending k.parameterList.start k.parameterList.stop k.parameters :=
  ⟨fun q hq => ⟨h.start_le q hq, h.le_stop q hq⟩, h.ascending⟩

section
variable (h : fateOf r u c = .migrated) (hlaid : c.IsLaidOut text)
include h hlaid

/-- The edits of a migrated class insert or delete, in ranges of the text. -/
theorem isPlain_of_mem_classEdits {e : TextEdit} (he : e ∈ (classEdits r c).map PlannedEdit.edit) :
    e.IsPlain ∧ e.range.isValidFor text = true := by
  obtain ⟨k, hk, -, hes⟩ := map_edit_classEdits h
  have hlaidK := hlaid k hk
  rw [hes] at he
  rcases List.mem_cons.mp he with rfl | he
  · refine ⟨Or.inl rfl, ?_⟩
    simp [TextEdit.insert, TextRange.empty, TextRange.isValidFor, hlaidK.bodyStart_boundary]
  · obtain ⟨t, ht, rfl⟩ := List.mem_map.mp he
    obtain ⟨⟨-, hle, -⟩, hstart, hstop⟩ := mem_removalRanges (areAscending_of_isLaidOut hlaidK) ht
    have hstart' : isBoundary text t.start = true := by
      rcases hstart with hstart | ⟨q, hq, hstart⟩
      · rw [hstart]
        exact hlaidK.start_boundary
      · rw [hstart]
        exact hlaidK.parameter_boundary q hq
    have hstop' : isBoundary text t.stop = true := by
      rcases hstop with hstop | ⟨q, hq, hstop⟩
      · rw [hstop]
        exact hlaidK.stop_boundary
      · rw [hstop]
        exact hlaidK.parameter_boundary q hq
    refine ⟨Or.inr rfl, ?_⟩
    simp [TextEdit.delete, TextRange.isValidFor, hle, hstart', hstop']

/-- The edits of a migrated class are apart from one another. -/
theorem pairwise_classEdits :
    ((classEdits r c).map PlannedEdit.edit).Pairwise fun a b => a.range.IsApartFrom b.range := by
  obtain ⟨k, hk, -, hes⟩ := map_edit_classEdits h
  have hasc := areAscending_of_isLaidOut (hlaid k hk)
  rw [hes]
  refine List.pairwise_cons.mpr ⟨?_, ?_⟩
  · -- the insertion comes before all removals
    intro e he
    obtain ⟨t, ht, rfl⟩ := List.mem_map.mp he
    have hstart := (mem_removalRanges hasc ht).1.1
    exact Or.inl (Nat.le_trans (hlaid k hk).bodyStart_le hstart)
  · rw [List.pairwise_map]
    exact (pairwise_removalRanges hasc).imp Or.inl

/-- The edits of a migrated class are apart from whatever the class is apart from. -/
theorem isApartFrom_of_mem_classEdits {range : TextRange} (hrange : c.IsApartFrom range) {e : TextEdit}
    (he : e ∈ (classEdits r c).map PlannedEdit.edit) : e.range.IsApartFrom range := by
  obtain ⟨k, hk, -, hes⟩ := map_edit_classEdits h
  rw [hes] at he
  rcases List.mem_cons.mp he with rfl | he
  · exact hrange.bodyStart
  · obtain ⟨t, ht, rfl⟩ := List.mem_map.mp he
    obtain ⟨⟨hstart, -, hstop⟩, -, -⟩ := mem_removalRanges (areAscending_of_isLaidOut (hlaid k hk)) ht
    have hlist := hrange.parameterList
    rw [parameterList_eq hk] at hlist
    exact (hlist.symm.mono hstart hstop).symm

omit hlaid in
/-- The edits of a migrated class insert its fields where its body begins. -/
theorem insertedBy_classEdits (offset : Nat) : insertedBy ((classEdits r c).map PlannedEdit.edit) offset =
    if c.bodyStart = offset then (promotedBlock r c).toList else [] := by
  obtain ⟨k, -, -, hes⟩ := map_edit_classEdits h
  -- the removals put nothing in place
  have hnone : insertedBy ((FieldPromotion.removalRanges k.parameterList.start k.parameterList.stop
      k.parameters).map TextEdit.delete) offset = [] := by
    simp [insertedBy, List.flatMap_eq_nil_iff, TextEdit.delete]
  rw [hes, insertedBy_cons, hnone, List.append_nil]
  rfl

/-- The edits of a migrated class remove what stands between the parentheses of its constructor. -/
theorem removedBy_classEdits (offset : Nat) : removedBy ((classEdits r c).map PlannedEdit.edit) offset =
    (decide (c.parameterList.start ≤ offset) && decide (offset < c.parameterList.stop)) := by
  obtain ⟨k, hk, hne, hes⟩ := map_edit_classEdits h
  -- the insertion removes nothing
  have hinsert : (decide (c.bodyStart ≤ offset) && decide (offset < c.bodyStart)) = false := by
    simp
  rw [hes, parameterList_eq hk, ← any_removalRanges (areAscending_of_isLaidOut (hlaid k hk)) hne,
    removedBy, List.any_cons, List.any_map]
  show (decide (c.bodyStart ≤ offset) && decide (offset < c.bodyStart) || _) = _
  rw [hinsert, Bool.false_or]
  rfl

/-- Whatever overlaps the parameter list of a migrated class overlaps one of its edits, unless it is an offset at
which a parameter begins. -/
theorem exists_overlapping_edit {range : TextRange} (hle : range.start ≤ range.stop)
    (hin : ¬ range.IsApartFrom c.parameterList) (hstarts : ∀ q ∈ c.parameters, range ≠ .empty q.range.start) :
    ∃ e ∈ (classEdits r c).map PlannedEdit.edit, ¬ range.IsApartFrom e.range := by
  obtain ⟨k, hk, hne, hes⟩ := map_edit_classEdits h
  rw [parameterList_eq hk] at hin
  have hparameters : c.parameters = k.parameters := by simp [ClassDecl.parameters, hk]
  rw [hparameters] at hstarts
  obtain ⟨t, ht, hoverlap⟩ :=
    exists_overlapping_removal (areAscending_of_isLaidOut (hlaid k hk)) hne hle hin hstarts
  rw [hes]
  exact ⟨_, List.mem_cons_of_mem _ (List.mem_map_of_mem ht), hoverlap⟩

end

end

end FieldInjection
