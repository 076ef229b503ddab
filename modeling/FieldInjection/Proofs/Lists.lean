import Mathlib.Data.List.Forall2

/-!
# Lists and traversals

Facts about lists that are not in the library: members of lists that are pairwise related, traversals that may
fail, and what is found in two lists that are related one by one.
-/

namespace FieldInjection

/-- Two members of a list whose members are pairwise related are one member, or related one way or the other. -/
theorem eq_or_rel_of_pairwise {α : Type} {R : α → α → Prop} {l : List α} (h : l.Pairwise R) {a b : α}
    (ha : a ∈ l) (hb : b ∈ l) : a = b ∨ R a b ∨ R b a := by
  induction h with
  | nil => cases ha
  | cons hfirst _ ih =>
    rcases List.mem_cons.mp ha with rfl | ha'
    · rcases List.mem_cons.mp hb with rfl | hb'
      · exact Or.inl rfl
      · exact Or.inr (Or.inl (hfirst b hb'))
    · rcases List.mem_cons.mp hb with rfl | hb'
      · exact Or.inr (Or.inr (hfirst a ha'))
      · exact ih ha' hb'

theorem eq_of_perm_of_length_le_one {α : Type} {xs ys : List α} (hperm : xs.Perm ys) (hlen : xs.length ≤ 1) :
    xs = ys := by
  cases xs with
  | nil => exact hperm.nil_eq
  | cons x rest =>
    obtain rfl : rest = [] := by simpa using hlen
    exact List.singleton_perm.mp hperm |>.symm ▸ rfl

/-- Two lists are one if they have the same values in order, and the same elements of each value in order. -/
theorem eq_of_map_eq_of_filter_eq {α β : Type} [DecidableEq β] (f : α → β) {xs ys : List α}
    (hmap : xs.map f = ys.map f) (hfilter : ∀ b, xs.filter (f · = b) = ys.filter (f · = b)) : xs = ys := by
  induction xs generalizing ys with
  | nil =>
    cases ys with
    | nil => rfl
    | cons y ys => cases hmap
  | cons x xs ih =>
    cases ys with
    | nil => cases hmap
    | cons y ys =>
      obtain ⟨hhead, htail⟩ := List.cons.inj hmap
      -- the two first elements are the first ones of their value
      have hxy : x = y := by
        have h := hfilter (f x)
        rw [List.filter_cons_of_pos (by simp), List.filter_cons_of_pos (by simpa using hhead.symm)] at h
        exact (List.cons.inj h).1
      subst hxy
      rw [ih htail]
      intro b
      have h := hfilter b
      by_cases hb : f x = b
      · rw [List.filter_cons_of_pos (by simpa using hb), List.filter_cons_of_pos (by simpa using hb)] at h
        exact (List.cons.inj h).2
      · rwa [List.filter_cons_of_neg (by simpa using hb), List.filter_cons_of_neg (by simpa using hb)] at h

theorem lookup_append_of_not_mem {α : Type} {done : List (String × α)} {key : String} (h : key ∉ done.map Prod.fst)
    (others : List (String × α)) : (done ++ others).lookup key = others.lookup key := by
  have hnone : done.lookup key = none := by
    rw [List.lookup_eq_none_iff]
    intro e he
    have hne : key ≠ e.1 := fun heq => h (heq ▸ List.mem_map_of_mem he)
    simp [hne]
  rw [List.lookup_append, hnone, Option.none_or]

/-! ## Lists that are related one by one -/

section
variable {α β γ : Type} {R : α → β → Prop} {l : List α} {l' : List β}

instance decidableForall₂ [∀ a b, Decidable (R a b)] : (l : List α) → (l' : List β) → Decidable (List.Forall₂ R l l')
  | [], [] => isTrue .nil
  | [], _ :: _ => isFalse fun h => nomatch h
  | _ :: _, [] => isFalse fun h => nomatch h
  | a :: l, b :: l' =>
    have := decidableForall₂ l l'
    decidable_of_iff (R a b ∧ List.Forall₂ R l l') List.forall₂_cons.symm

theorem map_eq_of_forall₂ {f : α → γ} {g : β → γ} (h : List.Forall₂ R l l') (hR : ∀ a b, R a b → f a = g b) :
    l.map f = l'.map g := by
  induction h with
  | nil => rfl
  | cons hab _ ih => rw [List.map_cons, List.map_cons, hR _ _ hab, ih]

theorem any_eq_of_forall₂ {p : α → Bool} {q : β → Bool} (h : List.Forall₂ R l l') (hR : ∀ a b, R a b → p a = q b) :
    l.any p = l'.any q := by
  induction h with
  | nil => rfl
  | cons hab _ ih => rw [List.any_cons, List.any_cons, hR _ _ hab, ih]

theorem filterMap_eq_of_forall₂ {f : α → Option γ} {g : β → Option γ} (h : List.Forall₂ R l l')
    (hR : ∀ a b, R a b → f a = g b) : l.filterMap f = l'.filterMap g := by
  induction h with
  | nil => rfl
  | cons hab _ ih => rw [List.filterMap_cons, List.filterMap_cons, hR _ _ hab, ih]

theorem flatMap_eq_of_forall₂ {f : α → List γ} {g : β → List γ} (h : List.Forall₂ R l l')
    (hR : ∀ a b, R a b → f a = g b) : l.flatMap f = l'.flatMap g := by
  rw [List.flatMap_def, List.flatMap_def, map_eq_of_forall₂ h hR]

theorem exists_of_mem_forall₂ (h : List.Forall₂ R l l') {a : α} (ha : a ∈ l) : ∃ b ∈ l', R a b := by
  induction h with
  | nil => cases ha
  | cons hab _ ih =>
    rcases List.mem_cons.mp ha with rfl | ha
    · exact ⟨_, List.mem_cons_self, hab⟩
    · obtain ⟨b, hb, hab⟩ := ih ha
      exact ⟨b, List.mem_cons_of_mem _ hb, hab⟩

theorem exists_forall₂ (h : ∀ a ∈ l, ∃ b, R a b) : ∃ l', List.Forall₂ R l l' := by
  induction l with
  | nil => exact ⟨[], .nil⟩
  | cons a l ih =>
    obtain ⟨b, hab⟩ := h a List.mem_cons_self
    obtain ⟨l', hl⟩ := ih fun a' ha' => h a' (List.mem_cons_of_mem a ha')
    exact ⟨b :: l', .cons hab hl⟩

theorem exists_of_mem_forall₂_right (h : List.Forall₂ R l l') {b : β} (hb : b ∈ l') : ∃ a ∈ l, R a b :=
  exists_of_mem_forall₂ (R := flip R) (List.Forall₂.flip h) hb

theorem forall₂_zipWith {R : α → γ → Prop} {f : α → β → γ} (hR : ∀ x y, R x (f x y)) {xs : List α}
    {ys : List β} (hlen : ys.length = xs.length) : List.Forall₂ R xs (List.zipWith f xs ys) := by
  induction xs generalizing ys with
  | nil => exact .nil
  | cons x xs ih =>
    cases ys with
    | nil => cases hlen
    | cons y ys => exact .cons (hR x y) (ih (Nat.succ.inj hlen))

theorem filter_forall₂ {p : α → Bool} {q : β → Bool} (h : List.Forall₂ R l l') (hR : ∀ a b, R a b → p a = q b) :
    List.Forall₂ R (l.filter p) (l'.filter q) :=
  List.rel_filter (fun _ _ hab => Bool.eq_iff_iff.mp (hR _ _ hab)) h

theorem head?_rel (h : List.Forall₂ R l l') : Option.Rel R l.head? l'.head? := by
  cases h with
  | nil => exact .none
  | cons hab _ => exact .some hab

theorem find?_rel {p : α → Bool} {q : β → Bool} (h : List.Forall₂ R l l') (hR : ∀ a b, R a b → p a = q b) :
    Option.Rel R (l.find? p) (l'.find? q) := by
  rw [← List.head?_filter, ← List.head?_filter]
  exact head?_rel (filter_forall₂ h hR)

/-- What is found in both, or in neither. -/
theorem cases_of_rel {o : Option α} {o' : Option β} (h : Option.Rel R o o') :
    (o = none ∧ o' = none) ∨ ∃ a b, o = some a ∧ o' = some b ∧ R a b := by
  cases h with
  | none => exact Or.inl ⟨rfl, rfl⟩
  | some hab => exact Or.inr ⟨_, _, rfl, rfl, hab⟩

theorem rel_mono {S : α → β → Prop} {o : Option α} {o' : Option β} (h : Option.Rel R o o') (hRS : ∀ a b, R a b → S a b) :
    Option.Rel S o o' := by
  cases h with
  | none => exact .none
  | some hab => exact .some (hRS _ _ hab)

theorem forall₂_toList {o : Option α} {o' : Option β} (h : Option.Rel R o o') :
    List.Forall₂ R o.toList o'.toList := by
  cases h with
  | none => exact .nil
  | some h => exact .cons h .nil

theorem elim_eq_of_rel {o : Option α} {o' : Option β} {c : γ} {f : α → γ} {g : β → γ} (h : Option.Rel R o o')
    (hR : ∀ a b, R a b → f a = g b) : o.elim c f = o'.elim c g := by
  cases h with
  | none => rfl
  | some hab => exact hR _ _ hab

theorem map_eq_of_rel {o : Option α} {o' : Option β} {f : α → γ} {g : β → γ} (h : Option.Rel R o o')
    (hR : ∀ a b, R a b → f a = g b) : o.map f = o'.map g := by
  cases h with
  | none => rfl
  | some hab => exact congrArg some (hR _ _ hab)

end

/-! ## Traversals that may fail -/

section
variable {α β ε : Type} {f : α → Except ε β} {l : List α} {l' : List β}

/-- A traversal succeeds with what each element gives. -/
theorem mapM_eq_ok_iff : l.mapM f = .ok l' ↔ List.Forall₂ (fun x y => f x = .ok y) l l' := by
  induction l generalizing l' with
  | nil => simp [pure, Except.pure, eq_comm]
  | cons x l ih =>
    rw [List.mapM_cons, List.forall₂_cons_left_iff]
    cases hx : f x with
    | error e => simp [bind, Except.bind]
    | ok y =>
      cases hl : l.mapM f with
      | error e => simp [bind, Except.bind, ← ih, hl]
      | ok ys => simp [bind, Except.bind, pure, Except.pure, ← ih, hl, eq_comm]

theorem isOk_mapM_iff : (∃ ys, l.mapM f = .ok ys) ↔ ∀ x ∈ l, ∃ y, f x = .ok y := by
  constructor
  · rintro ⟨ys, h⟩ x hx
    obtain ⟨y, -, hxy⟩ := exists_of_mem_forall₂ (mapM_eq_ok_iff.mp h) hx
    exact ⟨y, hxy⟩
  · intro h
    obtain ⟨ys, hys⟩ := exists_forall₂ h
    exact ⟨ys, mapM_eq_ok_iff.mpr hys⟩

/-- A traversal that fails has failed at its first element that does. -/
theorem exists_error_of_mapM {e : ε} (h : l.mapM f = .error e) :
    ∃ front x back, l = front ++ x :: back ∧ (∀ y ∈ front, ∃ b, f y = .ok b) ∧ f x = .error e := by
  induction l with
  | nil => cases h
  | cons x xs ih =>
    rw [List.mapM_cons] at h
    cases hx : f x with
    | error e' =>
      simp only [hx, bind, Except.bind, Except.error.injEq] at h
      subst h
      exact ⟨[], x, xs, rfl, by simp, hx⟩
    | ok y =>
      cases hxs : xs.mapM f with
      | error e' =>
        simp only [hx, hxs, bind, Except.bind, Except.error.injEq] at h
        subst h
        obtain ⟨front, x', back, rfl, hfront, he⟩ := ih hxs
        exact ⟨x :: front, x', back, rfl, by simpa [hx] using hfront, he⟩
      | ok ys => simp [hx, hxs, bind, Except.bind, pure, Except.pure] at h

end

end FieldInjection
