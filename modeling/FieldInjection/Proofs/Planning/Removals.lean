import FieldInjection.Proofs.Planning.Promotion
import FieldInjection.Proofs.TypeScript.Layout

/-!
# The removals of parameters

Parameters are taken out in ranges that are wider than they are: each reaches from the beginning of its parameter to
that of the next one, the first one from the beginning of the list and the last one to its end. So the removals of a
class follow one another without a gap (`areTiles_removalRanges`) and hold each byte of the parameter list once
(`AreTiles.isTiledBy`). What is recorded of a class that is promoted is therefore the removal of the whole list, of
which every parameter takes the part that it stands in (`removals_tile_parameterList`). All that this takes is that
parameters begin in order, as those do that are read from a file (`beginInOrder_readTree`).
-/

namespace FieldInjection

/-- The byte at an offset belongs to the range. -/
def TextRange.holds (range : TextRange) (offset : Nat) : Bool := range.start ≤ offset && offset < range.stop

/-- Ranges that follow one another without a gap from the start of a range to its end, and together hold each of its
bytes once and no others. -/
structure TextRange.IsTiledBy (range : TextRange) (ts : List TextRange) : Prop where
  first : ts.head?.map TextRange.start = some range.start
  next : ts.IsChain fun t t' => t.stop = t'.start
  last : ts.getLast?.map TextRange.stop = some range.stop
  inOrder : ∀ t ∈ ts, t.start ≤ t.stop
  once : ∀ offset, ts.countP (·.holds offset) = if range.holds offset then 1 else 0

/-- The parameters begin in the parameter list, each not before the one in front of it. -/
structure Constructor.BeginInOrder (k : Constructor) : Prop where
  start_le : ∀ q ∈ k.parameters, k.parameterList.start ≤ q.range.start
  le_stop : ∀ q ∈ k.parameters, q.range.start ≤ k.parameterList.stop
  ascending : k.parameters.Pairwise fun q q' => q.range.start ≤ q'.range.start

/-- No parameter reaches into one behind it. -/
def Constructor.AreDisjoint (k : Constructor) : Prop :=
  k.parameters.Pairwise fun q q' => q.range.stop ≤ q'.range.start

/-- The parameters of a class that is read from the tree of a file begin in order. -/
theorem TypeScript.beginInOrder_readTree {path relativePath : Path} {text : String} {tree : SyntaxTree} {c : ClassDecl}
    {k : Constructor} (h : tree.root.ArePlaced text.toList) (hshaped : tree.root.AreShaped)
    (hc : c ∈ (readTree path relativePath text tree).classes) (hk : c.constructor? = some k) : k.BeginInOrder :=
  have hlaid := readTree_isLaidOut h hshaped hc k hk
  ⟨hlaid.start_le, hlaid.le_stop, hlaid.ascending.imp Nat.le_of_lt⟩

/-! ## Tiles -/

/-- Ranges of which the first begins at an offset, each of the others where the one in front of it ends, and the last
one ends at another offset. -/
inductive AreTiles (stop : Nat) : Nat → List TextRange → Prop
  | last {start : Nat} (hle : start ≤ stop) : AreTiles stop start [⟨start, stop⟩]
  | cons {start middle : Nat} {ts : List TextRange} (hle : start ≤ middle) (hrest : AreTiles stop middle ts) :
    AreTiles stop start (⟨start, middle⟩ :: ts)

section
variable {start stop : Nat} {ts : List TextRange} {q : Parameter} {qs : List Parameter}

theorem AreTiles.le (h : AreTiles stop start ts) : start ≤ stop := by
  induction h with
  | last hle => exact hle
  | cons hle _ ih => exact Nat.le_trans hle ih

theorem AreTiles.exists_head (h : AreTiles stop start ts) : ∃ t back, ts = t :: back ∧ t.start = start := by
  cases h with
  | last => exact ⟨_, _, rfl, rfl⟩
  | cons => exact ⟨_, _, rfl, rfl⟩

/-- Tiles hold each byte between the two offsets once. -/
theorem AreTiles.countP_holds (h : AreTiles stop start ts) (offset : Nat) :
    ts.countP (·.holds offset) = if (⟨start, stop⟩ : TextRange).holds offset then 1 else 0 := by
  induction h with
  | last => rw [List.countP_singleton]
  | @cons start middle ts hle hrest ih =>
    -- the byte belongs to the first range or to those behind it
    have hle' := hrest.le
    rw [List.countP_cons, ih]
    simp only [TextRange.holds, Bool.and_eq_true, decide_eq_true_eq]
    split <;> split <;> split <;> omega

theorem AreTiles.isTiledBy (h : AreTiles stop start ts) : (⟨start, stop⟩ : TextRange).IsTiledBy ts where
  first := by
    obtain ⟨t, back, rfl, hstart⟩ := h.exists_head
    rw [List.head?_cons, Option.map_some, hstart]
  next := by
    induction h with
    | last => exact .singleton _
    | cons _ hrest ih =>
      obtain ⟨t, back, rfl, hstart⟩ := hrest.exists_head
      exact .cons_cons hstart.symm ih
  last := by
    induction h with
    | last => rfl
    | cons _ hrest ih =>
      obtain ⟨t, back, rfl, -⟩ := hrest.exists_head
      rw [List.getLast?_cons_cons]
      exact ih
  inOrder := by
    induction h with
    | last hle => simpa using hle
    | cons hle _ ih => simpa [hle] using ih
  once := h.countP_holds

/-! ## The removals of some parameters -/

/-- The removals of parameters that begin in order are tiles. -/
theorem areTiles_removalRanges (hne : qs ≠ []) (hbounds : ∀ q ∈ qs, start ≤ q.range.start ∧ q.range.start ≤ stop)
    (hascending : qs.Pairwise fun q q' => q.range.start ≤ q'.range.start) :
    AreTiles stop start (FieldPromotion.removalRanges start stop qs) := by
  -- as `removalRanges` recurs: the list that is left begins where the next parameter does
  induction qs generalizing start with
  | nil => exact absurd rfl hne
  | cons q qs ih =>
    obtain ⟨hq, hrest⟩ := List.pairwise_cons.mp hascending
    cases qs with
    | nil =>
      have hle := hbounds q List.mem_cons_self
      exact .last (Nat.le_trans hle.1 hle.2)
    | cons next rest =>
      have hnext := hbounds next (List.mem_cons_of_mem q List.mem_cons_self)
      refine .cons hnext.1 (ih (List.cons_ne_nil next rest) ?_ hrest)
      intro x hx
      refine ⟨?_, (hbounds x (List.mem_cons_of_mem q hx)).2⟩
      rcases List.mem_cons.mp hx with rfl | hx
      · exact Nat.le_refl _
      · exact (List.pairwise_cons.mp hrest).1 x hx

/-- Each removal begins at or before its parameter and reaches to its end, if no parameter reaches into the next one,
and the last one not beyond the end of the list. -/
theorem forall₂_removalRanges (hbounds : ∀ q ∈ qs, start ≤ q.range.start)
    (hascending : qs.Pairwise fun q q' => q.range.start ≤ q'.range.start)
    (hdisjoint : qs.Pairwise fun q q' => q.range.stop ≤ q'.range.start) :
    List.Forall₂ (fun q t => t.start ≤ q.range.start ∧ (q.range.stop ≤ stop → q.range.stop ≤ t.stop)) qs
      (FieldPromotion.removalRanges start stop qs) := by
  induction qs generalizing start with
  | nil => exact .nil
  | cons q qs ih =>
    have hq := hbounds q List.mem_cons_self
    obtain ⟨-, hascending'⟩ := List.pairwise_cons.mp hascending
    obtain ⟨hends, hdisjoint'⟩ := List.pairwise_cons.mp hdisjoint
    cases qs with
    | nil => exact .cons ⟨hq, id⟩ .nil
    | cons next rest =>
      -- the removal ends where the next parameter begins
      refine .cons ⟨hq, fun _ => hends next List.mem_cons_self⟩ (ih ?_ hascending' hdisjoint')
      intro x hx
      rcases List.mem_cons.mp hx with rfl | hx
      · exact Nat.le_refl _
      · exact (List.pairwise_cons.mp hascending').1 x hx

end

namespace FieldPromotion

/--
**The removals tile the parameter list.** Let a class have a constructor with parameters that begin in order in its
parameter list. Either the class is refused, for what it is to be refused for, and nothing is recorded. Or behind an
insertion that removes nothing, one deletion is recorded for each parameter, in their order: the first begins where the
list does, each other one where the one in front of it ends, and the last one ends with the list, so that every byte of
the list is deleted once and no other. If no parameter reaches into another, each deletion covers its own parameter, if
this ends in the list.
-/
theorem removals_tile_parameterList (function : String) (log : EditLog) {c : ClassDecl} {k : Constructor}
    (hk : c.constructor? = some k) (hne : k.parameters ≠ []) (horder : k.BeginInOrder) :
    (∃ refusal, promote function c log = .error refusal ∧ Refuses c k refusal) ∨
    ∃ insertion ts, insertion.edit.range = .empty c.bodyStart ∧
      promote function c log = .ok (log.extend (insertion :: List.zipWith
        (fun q t => ⟨c.file, .removeParameter c.name q.name, .delete t⟩) k.parameters ts),
        .promoted k.parameters.length) ∧
      ts.length = k.parameters.length ∧ k.parameterList.IsTiledBy ts ∧
      (k.AreDisjoint → List.Forall₂ (fun q t => t.start ≤ q.range.start ∧
        (q.range.stop ≤ k.parameterList.stop → q.range.stop ≤ t.stop)) k.parameters ts) := by
  by_cases hrefused : ∃ refusal, Refuses c k refusal
  · obtain ⟨refusal, hrefuses⟩ := hrefused
    exact Or.inl ⟨refusal, (promote_eq_error_iff hk hne).mpr hrefuses, hrefuses⟩
  · obtain ⟨fields, hfields, hpromote⟩ := promote_of_not_refused function log hk hne hrefused
    rw [← (fieldsOf_eq_ok hfields).length_eq] at hpromote
    refine Or.inr ⟨_, _, rfl, hpromote, length_removalRanges _ _ _, ?_, fun hdisjoint => ?_⟩
    · exact (areTiles_removalRanges hne (fun q hq => ⟨horder.start_le q hq, horder.le_stop q hq⟩)
        horder.ascending).isTiledBy
    · exact forall₂_removalRanges horder.start_le horder.ascending hdisjoint

/-- Three parameters, with a decorator in front of the first one, a comment behind the second one and a comma behind the
last one: `(@Host() x: X, private y: Y /* é */, z: Z,)`. -/
theorem removals_tile_threeParameters :
    let x : Parameter := ⟨"x", .identifier, some "X", false, false, none, [⟨"@Host()", .flag .host⟩], ⟨22, 34⟩⟩
    let y : Parameter := ⟨"y", .identifier, some "Y", false, false, some .priv, [], ⟨36, 48⟩⟩
    let z : Parameter := ⟨"z", .identifier, some "Z", false, false, none, [], ⟨59, 63⟩⟩
    let k : Constructor := ⟨[x, y, z], ⟨22, 64⟩, 0⟩
    let c : ClassDecl := ⟨"A", ⟨"/p/a.ts"⟩, ⟨0, 70⟩, 9, "    ", true, .lf, some k⟩
    (c.constructor? = some k ∧ k.parameters ≠ [] ∧ k.BeginInOrder ∧ k.AreDisjoint) ∧
    ∃ insertion ts, insertion.edit.range = .empty 9 ∧
      promote "inject" c .empty = .ok (EditLog.empty.extend (insertion :: List.zipWith
        (fun q t => ⟨c.file, .removeParameter "A" q.name, .delete t⟩) [x, y, z] ts), .promoted 3) ∧
      ts.length = 3 ∧ (⟨22, 64⟩ : TextRange).IsTiledBy ts ∧
      List.Forall₂ (fun q t => t.start ≤ q.range.start ∧ (q.range.stop ≤ 64 → q.range.stop ≤ t.stop)) [x, y, z] ts := by
  intro x y z k c
  have hk : c.constructor? = some k := rfl
  have hne : k.parameters ≠ [] := List.cons_ne_nil _ _
  have horder : k.BeginInOrder := ⟨by decide, by decide, by decide⟩
  have hdisjoint : k.AreDisjoint := by
    unfold Constructor.AreDisjoint
    decide
  have hpromoted : ∀ refusal, promote "inject" c .empty ≠ .error refusal := by
    intro refusal hrefused
    have hok : (promote "inject" c .empty).isOk = true := by decide +kernel
    rw [hrefused] at hok
    cases hok
  obtain ⟨refusal, hrefused, -⟩ | ⟨insertion, ts, hinsertion, hpromote, hlength, htiled, hcovers⟩ :=
    removals_tile_parameterList "inject" .empty hk hne horder
  · exact absurd hrefused (hpromoted refusal)
  · exact ⟨⟨hk, hne, horder, hdisjoint⟩, insertion, ts, hinsertion, hpromote, hlength, htiled, hcovers hdisjoint⟩

end FieldPromotion

end FieldInjection
