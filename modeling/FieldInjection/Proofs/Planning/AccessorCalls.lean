import Mathlib.Data.List.Induction
import Mathlib.Data.List.Sort
import Mathlib.Logic.Relation
import FieldInjection.Proofs.Planning.Promotion

/-!
# What an accessor call takes over from the decorators

A parameter looks up the token of its first decorator that names one, or else its declared type (`LooksUp`), and its
flags are options of the call, each once, in the order in which they first occur (`AreFlagsOf`). Nothing else about
the decorators counts: those that mean nothing here, flags that come again, tokens behind the first one, and where the
tokens stand among the flags (`IsIdleChange`). `call_follows_decorators` says all of this of the text of the call.
-/

namespace FieldInjection.Accessor

/-- What a parameter looks up. -/
inductive LooksUp (p : Parameter) : String → Prop
  | token {d : Decorator} {target : String} (hfirst : IsFirst (fun e => ∃ text, e.kind = .token text) d p.decorators)
    (hd : d.kind = .token target) : LooksUp p target
  | declaredType {target : String} (hnone : ∀ d ∈ p.decorators, ∀ text, d.kind ≠ .token text)
    (htype : p.declaredType = some target) : LooksUp p target

/-- Where a flag stands among some decorators for the first time; behind all of them if it does not. -/
def firstPlace (ds : List Decorator) (o : ResolutionOption) : Nat := ds.findIdx fun d => d.kind = .flag o

/-- The flags that some decorators carry, in the order in which they first occur. -/
structure AreFlagsOf (ds : List Decorator) (os : List ResolutionOption) : Prop where
  mem_iff : ∀ o, o ∈ os ↔ ∃ d ∈ ds, d.kind = .flag o
  inOrder : os.Pairwise fun o o' => firstPlace ds o < firstPlace ds o'

/-- What stands between the target of a call and its closing parenthesis. -/
def optionsArgument (os : List ResolutionOption) : String :=
  if os = [] then "" else ",\x7b\n" ++ String.intercalate ",\n" (os.map fun o => o.key ++ ": true") ++ "\n\x7d"

/-- Changes of decorators that change no call. -/
inductive IsIdleChange : List Decorator → List Decorator → Prop
  | unrecognized {d : Decorator} (front back : List Decorator) (hd : d.kind = .unrecognized) :
    IsIdleChange (front ++ d :: back) (front ++ back)
  | repeatedFlag {d e : Decorator} {o : ResolutionOption} (front back : List Decorator)
    (hd : d.kind = .flag o) (he : e.kind = .flag o) (hmem : e ∈ front) : IsIdleChange (front ++ d :: back) (front ++ back)
  | laterToken {d e : Decorator} {text text' : String} (front back : List Decorator)
    (hd : d.kind = .token text) (he : e.kind = .token text') (hmem : e ∈ front) :
    IsIdleChange (front ++ d :: back) (front ++ back)
  | exchange {d e : Decorator} {text : String} {o : ResolutionOption} (front back : List Decorator)
    (hd : d.kind = .token text) (he : e.kind = .flag o) : IsIdleChange (front ++ d :: e :: back) (front ++ e :: d :: back)

section
variable {function className : String} {p : Parameter} {ds ds' : List Decorator} {d : Decorator}
  {os os' : List ResolutionOption} {o : ResolutionOption} {target text : String}

/-! ## Flags -/

theorem firstPlace_concat_of_mem (h : ∃ e ∈ ds, e.kind = .flag o) : firstPlace (ds ++ [d]) o = firstPlace ds o := by
  obtain ⟨e, he, hkind⟩ := h
  have hlt : firstPlace ds o < ds.length := List.findIdx_lt_length_of_exists ⟨e, he, by simpa using hkind⟩
  rw [firstPlace, List.findIdx_append]
  exact if_pos hlt

theorem length_le_firstPlace_concat (h : ∀ e ∈ ds, e.kind ≠ .flag o) : ds.length ≤ firstPlace (ds ++ [d]) o := by
  have hlength : ds.findIdx (fun e => e.kind = .flag o) = ds.length :=
    List.findIdx_eq_length_of_false fun e he => by simpa using h e he
  rw [firstPlace, List.findIdx_append, hlength, if_neg (lt_irrefl _)]
  exact Nat.le_add_left ..

/-- The flags of some decorators are in the same order when others follow. -/
theorem AreFlagsOf.inOrder_concat (h : AreFlagsOf ds os) (d : Decorator) :
    os.Pairwise fun o o' => firstPlace (ds ++ [d]) o < firstPlace (ds ++ [d]) o' := by
  refine h.inOrder.imp_of_mem fun ho ho' hlt => ?_
  rwa [firstPlace_concat_of_mem ((h.mem_iff _).mp ho), firstPlace_concat_of_mem ((h.mem_iff _).mp ho')]

theorem AreFlagsOf.concat_other (h : AreFlagsOf ds os) (hd : ∀ o, d.kind = .flag o → o ∈ os) :
    AreFlagsOf (ds ++ [d]) os := by
  refine ⟨fun o => ?_, h.inOrder_concat d⟩
  simp only [List.mem_append, List.mem_singleton, or_and_right, exists_or, ← h.mem_iff, exists_eq_left]
  exact ⟨Or.inl, Or.rec id (hd o)⟩

theorem AreFlagsOf.concat_new (h : AreFlagsOf ds os) (hd : d.kind = .flag o) (hnew : o ∉ os) :
    AreFlagsOf (ds ++ [d]) (os ++ [o]) := by
  have hfirst : ∀ e ∈ ds, e.kind ≠ .flag o := fun e he hkind => hnew ((h.mem_iff o).mpr ⟨e, he, hkind⟩)
  refine ⟨fun o' => ?_, List.pairwise_append.mpr ⟨h.inOrder_concat d, List.pairwise_singleton .., ?_⟩⟩
  · simp only [List.mem_append, List.mem_singleton, or_and_right, exists_or, ← h.mem_iff, exists_eq_left, hd,
      DecoratorKind.flag.injEq, eq_comm (a := o)]
  · rintro o' ho' _ hmem
    obtain rfl := List.mem_singleton.mp hmem
    obtain ⟨e, he, hkind⟩ := (h.mem_iff o').mp ho'
    rw [firstPlace_concat_of_mem ⟨e, he, hkind⟩]
    exact lt_of_lt_of_le (List.findIdx_lt_length_of_exists ⟨e, he, by simpa using hkind⟩)
      (length_le_firstPlace_concat hfirst)

theorem ofDecorators_append (ds ds' : List Decorator) : ResolutionOptions.ofDecorators (ds ++ ds') =
    (ds'.filterMap fun d => d.kind.option?).foldl ResolutionOptions.enable (ResolutionOptions.ofDecorators ds) := by
  simp [ResolutionOptions.ofDecorators, ResolutionOptions.ofList]

/-- The options of a parameter are the flags of its decorators. -/
theorem areFlagsOf_ofDecorators (ds : List Decorator) : AreFlagsOf ds (ResolutionOptions.ofDecorators ds).enabled := by
  induction ds using List.reverseRecOn with
  | nil => exact ⟨fun o => by simp [ResolutionOptions.ofDecorators, ResolutionOptions.ofList, ResolutionOptions.empty],
      List.Pairwise.nil⟩
  | append_singleton ds d ih =>
    rw [ofDecorators_append]
    cases hkind : d.kind with
    | flag o =>
      simp only [List.filterMap_cons, hkind, DecoratorKind.option?, List.filterMap_nil, List.foldl_cons, List.foldl_nil,
        ResolutionOptions.enable]
      split
      · exact ih.concat_other fun o' ho' => by
          rw [hkind] at ho'
          cases ho'
          assumption
      · exact ih.concat_new hkind ‹_›
    | token text => simpa [hkind, DecoratorKind.option?] using ih.concat_other (d := d) (by simp [hkind])
    | unrecognized => simpa [hkind, DecoratorKind.option?] using ih.concat_other (d := d) (by simp [hkind])

/-- There is one order in which the flags of some decorators first occur. -/
theorem AreFlagsOf.unique (h : AreFlagsOf ds os) (h' : AreFlagsOf ds os') : os = os' := by
  have hnodup : ∀ {os}, AreFlagsOf ds os → os.Nodup := fun h => h.inOrder.imp fun hlt heq => by
    rw [heq] at hlt
    exact lt_irrefl _ hlt
  have hperm : os.Perm os' :=
    (List.perm_ext_iff_of_nodup (hnodup h) (hnodup h')).mpr fun o => (h.mem_iff o).trans (h'.mem_iff o).symm
  exact hperm.eq_of_pairwise (fun _ _ _ _ hlt hlt' => absurd hlt (lt_asymm hlt')) h.inOrder h'.inOrder

/-! ## Targets -/

theorem findSome?_token_eq_none_iff :
    (ds.findSome? fun d => d.kind.token?) = none ↔ ∀ d ∈ ds, ∀ text, d.kind ≠ .token text := by
  rw [List.findSome?_eq_none_iff]
  refine forall₂_congr fun d _ => ?_
  cases d.kind <;> simp [DecoratorKind.token?]

theorem findSome?_token_eq_some_iff : (ds.findSome? fun d => d.kind.token?) = some target ↔
    ∃ d, IsFirst (fun e => ∃ text, e.kind = .token text) d ds ∧ d.kind = .token target := by
  have hnone : ∀ d : Decorator, d.kind.token? = none ↔ ¬ ∃ text, d.kind = .token text := fun d => by
    cases d.kind <;> simp [DecoratorKind.token?]
  have hsome : ∀ d : Decorator, d.kind.token? = some target ↔ d.kind = .token target := fun d => by
    cases d.kind <;> simp [DecoratorKind.token?]
  rw [List.findSome?_eq_some_iff]
  constructor
  · rintro ⟨front, d, back, rfl, hd, hfront⟩
    have hd := (hsome d).mp hd
    exact ⟨d, ⟨front, back, rfl, ⟨target, hd⟩, fun e he => (hnone e).mp (hfront e he)⟩, hd⟩
  · rintro ⟨d, ⟨front, back, rfl, -, hfront⟩, hd⟩
    exact ⟨front, d, back, rfl, (hsome d).mpr hd, fun e he => (hnone e).mpr (hfront e he)⟩

theorem target_ok_iff : Accessor.target className p = .ok target ↔ LooksUp p target := by
  unfold Accessor.target
  constructor
  · intro h
    cases htoken : p.decorators.findSome? fun d => d.kind.token? with
    | some token =>
      simp only [htoken, Except.ok.injEq] at h
      obtain ⟨d, hfirst, hd⟩ := findSome?_token_eq_some_iff.mp htoken
      exact .token hfirst (h ▸ hd)
    | none =>
      simp only [htoken] at h
      split at h
      · rename_i type htype
        exact .declaredType (findSome?_token_eq_none_iff.mp htoken) (by rw [htype, Except.ok.inj h])
      · cases h
  · rintro (⟨hfirst, hd⟩ | ⟨hnone, htype⟩)
    · rw [findSome?_token_eq_some_iff.mpr ⟨_, hfirst, hd⟩]
    · rw [findSome?_token_eq_none_iff.mpr hnone, htype]

/-! ## The text of a call -/

theorem optionsArgument_eq_empty_iff : optionsArgument os = "" ↔ os = [] := by
  unfold optionsArgument
  split
  · simp [*]
  · simp [*, ← String.toList_inj]

/-- A call is its target and its options between parentheses. -/
theorem call_of_target (h : Accessor.target className p = .ok target) : Accessor.call function className p =
    .ok (function ++ "(" ++ target ++ optionsArgument (ResolutionOptions.ofDecorators p.decorators).enabled ++ ")") := by
  rw [Accessor.call, h]
  generalize ResolutionOptions.ofDecorators p.decorators = os
  obtain ⟨os⟩ := os
  cases os with
  | nil => simp [ResolutionOptions.render, optionsArgument]
  | cons o os =>
    have hentries : ((o :: os).map fun o => LiteralEntry.render ⟨o.key, .boolean true⟩) =
        (o :: os).map fun o => o.key ++ ": true" :=
      List.map_congr_left fun o _ => String.append_assoc
    have hrender : ResolutionOptions.render ⟨o :: os⟩ = "\x7b\n" ++
        String.intercalate ",\n" ((o :: os).map fun o => o.key ++ ": true") ++ "\n\x7d" := by
      rw [← hentries, ResolutionOptions.render, renderObjectLiteral, List.map_map]
      rfl
    have hsome : (ResolutionOptions.render ⟨o :: os⟩).isEmpty = false := by
      rw [hrender, ← Bool.not_eq_true, String.isEmpty_iff, ← String.toList_inj]
      simp
    simp only [hsome, Bool.false_eq_true, if_false]
    rw [hrender, optionsArgument, if_neg (List.cons_ne_nil o os), Except.ok.injEq, ← String.toList_inj]
    simp

/-! ## Idle changes -/

theorem IsIdleChange.findSome?_token (h : IsIdleChange ds ds') :
    (ds.findSome? fun d => d.kind.token?) = ds'.findSome? fun d => d.kind.token? := by
  cases h with
  | unrecognized front back hd => simp [List.findSome?_append, hd, DecoratorKind.token?]
  | repeatedFlag front back hd => simp [List.findSome?_append, hd, DecoratorKind.token?]
  | exchange front back hd he => simp [List.findSome?_append, hd, he, DecoratorKind.token?]
  | @laterToken d e text text' front back hd he hmem =>
    -- the first token stands in front of the one that goes
    obtain ⟨target, htarget⟩ : ∃ target, (front.findSome? fun d => d.kind.token?) = some target := by
      rw [← Option.isSome_iff_exists, List.findSome?_isSome_iff]
      exact ⟨e, hmem, by simp [he, DecoratorKind.token?]⟩
    simp [List.findSome?_append, htarget]

theorem IsIdleChange.ofDecorators_eq (h : IsIdleChange ds ds') :
    ResolutionOptions.ofDecorators ds = ResolutionOptions.ofDecorators ds' := by
  cases h with
  | unrecognized front back hd => simp [ofDecorators_append, hd, DecoratorKind.option?]
  | laterToken front back hd => simp [ofDecorators_append, hd, DecoratorKind.option?]
  | exchange front back hd he => simp [ofDecorators_append, hd, he, DecoratorKind.option?]
  | @repeatedFlag d e o front back hd he hmem =>
    -- the option is on already
    have hon : o ∈ (ResolutionOptions.ofDecorators front).enabled :=
      ((areFlagsOf_ofDecorators front).mem_iff o).mpr ⟨e, hmem, he⟩
    simp [ofDecorators_append, hd, DecoratorKind.option?, ResolutionOptions.enable, hon]

theorem IsIdleChange.call_eq (h : IsIdleChange ds ds') :
    Accessor.call function className { p with decorators := ds } =
      Accessor.call function className { p with decorators := ds' } := by
  simp only [Accessor.call, Accessor.target, h.findSome?_token, h.ofDecorators_eq]

end

/-- **Accessor calls**: a call fails exactly for a parameter with neither a token nor a declared type. Otherwise its
text is the function with the target and the options between parentheses, where the target is the token of the first
decorator that names one, or else the declared type, and the options are the flags that occur, each once and in the
order in which they first occur; they are left out exactly if no flag occurs. The call stays the same when
unrecognized decorators, repeated flags and further tokens are taken out or put in, and when tokens and flags change
places.
-/
theorem call_follows_decorators (function className : String) (p : Parameter) :
    (∀ refusal, Accessor.call function className p = .error refusal ↔
      ¬ p.HasTarget ∧ refusal = .malformedParameter className p.name) ∧
    (∀ text, Accessor.call function className p = .ok text ↔ ∃ target os, LooksUp p target ∧ AreFlagsOf p.decorators os ∧
      text = function ++ "(" ++ target ++ optionsArgument os ++ ")") ∧
    (∀ os, AreFlagsOf p.decorators os →
      (optionsArgument os = "" ↔ ∀ d ∈ p.decorators, ∀ o, d.kind ≠ .flag o)) ∧
    ∀ ds, Relation.EqvGen IsIdleChange p.decorators ds →
      Accessor.call function className { p with decorators := ds } = Accessor.call function className p := by
  refine ⟨fun refusal => FieldPromotion.call_error_iff, fun text => ?_, fun os hos => ?_, fun ds hds => ?_⟩
  · constructor
    · intro h
      cases htarget : Accessor.target className p with
      | error refusal =>
        rw [Accessor.call, htarget] at h
        cases h
      | ok target =>
        rw [call_of_target htarget] at h
        exact ⟨target, _, target_ok_iff.mp htarget, areFlagsOf_ofDecorators p.decorators, (Except.ok.inj h).symm⟩
    · rintro ⟨target, os, htarget, hos, rfl⟩
      rw [call_of_target (target_ok_iff.mpr htarget), (areFlagsOf_ofDecorators p.decorators).unique hos]
  · rw [optionsArgument_eq_empty_iff, List.eq_nil_iff_forall_not_mem]
    simp only [hos.mem_iff, not_exists, not_and]
    exact forall_comm.trans (forall_congr' fun d => forall_comm)
  · -- each single change keeps the call, and so does any chain of them, in either direction
    suffices h : ∀ ds ds', Relation.EqvGen IsIdleChange ds ds' →
        Accessor.call function className { p with decorators := ds } =
          Accessor.call function className { p with decorators := ds' } from (h _ _ hds).symm
    intro ds ds' h
    induction h with
    | rel _ _ h => exact h.call_eq
    | refl => rfl
    | symm _ _ _ ih => exact ih.symm
    | trans _ _ _ _ _ ih ih' => exact ih.trans ih'

/-- A parameter with a flag that comes twice, a decorator that means nothing here, and two tokens among them. -/
def manyDecorators : Parameter :=
  ⟨"a", .identifier, some "A", false, false, none,
    [⟨"@Host()", .flag .host⟩, ⟨"@Log()", .unrecognized⟩, ⟨"@Inject(T)", .token "T"⟩, ⟨"@Optional()", .flag .optional⟩,
      ⟨"@Host()", .flag .host⟩, ⟨"@Inject(U)", .token "U"⟩], ⟨0, 1⟩⟩

/-- The first token and the first flags make the same call by themselves, the token in front. -/
theorem call_follows_manyDecorators :
    Relation.EqvGen IsIdleChange manyDecorators.decorators
      [⟨"@Inject(T)", .token "T"⟩, ⟨"@Host()", .flag .host⟩, ⟨"@Optional()", .flag .optional⟩] ∧
    AreFlagsOf manyDecorators.decorators [.host, .optional] ∧
    Accessor.call "inject" "C" { manyDecorators with decorators :=
      [⟨"@Inject(T)", .token "T"⟩, ⟨"@Host()", .flag .host⟩, ⟨"@Optional()", .flag .optional⟩] } =
      .ok "inject(T,\x7b\nhost: true,\noptional: true\n\x7d)" := by
  have hflags : AreFlagsOf manyDecorators.decorators [.host, .optional] := areFlagsOf_ofDecorators _
  have hchanges : Relation.EqvGen IsIdleChange manyDecorators.decorators
      [⟨"@Inject(T)", .token "T"⟩, ⟨"@Host()", .flag .host⟩, ⟨"@Optional()", .flag .optional⟩] := by
    -- the later token, the repeated flag and the other decorator go, and the first token goes to the front
    refine .trans _ _ _ (.rel _ _ (.laterToken (e := ⟨"@Inject(T)", .token "T"⟩) (manyDecorators.decorators.take 5)
      [] rfl rfl (by decide))) ?_
    refine .trans _ _ _ (.rel _ _ (.repeatedFlag (e := ⟨"@Host()", .flag .host⟩) (manyDecorators.decorators.take 4)
      [] rfl rfl (by decide))) ?_
    refine .trans _ _ _ (.rel _ _ (.unrecognized (manyDecorators.decorators.take 1) _ rfl)) ?_
    exact .symm _ _ (.rel _ _ (.exchange [] _ rfl rfl))
  obtain ⟨-, htext, -, hidle⟩ := call_follows_decorators "inject" "C" manyDecorators
  refine ⟨hchanges, hflags, (hidle _ hchanges).trans ((htext _).mpr ⟨"T", _, ?_, hflags, by decide⟩)⟩
  exact .token ⟨manyDecorators.decorators.take 2, manyDecorators.decorators.drop 3, rfl, ⟨"T", rfl⟩,
    by simp [manyDecorators]⟩ rfl

end FieldInjection.Accessor
