import Mathlib.Data.List.Nodup
import FieldInjection.Proofs.FileTree.Resolution

/-!
# Walking a tree

In a tree whose directories have proper names for their entries, each of them once, a walk finds exactly the files of
the tree, each at its own place (`mem_files_iff`), in the order of their places (`pairwise_files`), and the names of a
place lead to it (`leads_of_find?`).
-/

namespace FieldInjection.Node

mutual

/-- Every directory has different names for its entries, and names that entries can have. -/
def isWellNamed : Node → Bool
  | .file _ => true
  | .link _ => true
  | .directory es => areWellNamed es

def areWellNamed : List (String × Node) → Bool
  | [] => true
  | e :: es => decide (Path.IsFileName e.1) && es.all (fun e' => e'.1 != e.1) && isWellNamed e.2 && areWellNamed es

end

theorem areWellNamed_cons {e : String × Node} {es : List (String × Node)} : areWellNamed (e :: es) = true ↔
    Path.IsFileName e.1 ∧ (∀ e' ∈ es, e'.1 ≠ e.1) ∧ e.2.isWellNamed = true ∧ areWellNamed es = true := by
  rw [areWellNamed]
  simp [and_assoc]

theorem isWellNamed_of_lookup {es : List (String × Node)} (h : areWellNamed es = true) {name : String} {m : Node}
    (hm : es.lookup name = some m) : m.isWellNamed = true := by
  induction es with
  | nil => cases hm
  | cons e es ih =>
    obtain ⟨-, -, hwell, hrest⟩ := areWellNamed_cons.mp h
    rw [lookup_cons] at hm
    split at hm
    · rw [← Option.some.inj hm]
      exact hwell
    · exact ih hrest hm

theorem isWellNamed_of_find? {n m : Node} {place : List String} (h : n.isWellNamed = true)
    (hm : n.find? place = some m) : m.isWellNamed = true := by
  induction place generalizing n with
  | nil =>
    obtain rfl := Option.some.inj hm
    exact h
  | cons name place ih =>
    rw [find?_cons, Option.bind_eq_some_iff] at hm
    obtain ⟨child, hentry, hm⟩ := hm
    obtain ⟨es, rfl, hlookup⟩ := exists_of_entry? hentry
    exact ih (isWellNamed_of_lookup h hlookup) hm

/-- A leaf stands at its place, which has proper names. -/
def IsAt (n : Node) (x : List String × Node) : Prop :=
  n.find? x.1 = some x.2 ∧ ∀ name ∈ x.1, Path.IsFileName name

theorem names_of_mem_entryLeaves {es : List (String × Node)} {f : String × List (List String × Node)}
    (h : f ∈ entryLeaves es) : ∃ e ∈ es, e.1 = f.1 := by
  induction es with
  | nil => simp [entryLeaves] at h
  | cons e es ih =>
    rw [entryLeaves, List.mem_cons] at h
    rcases h with rfl | h
    · exact ⟨e, List.mem_cons_self, rfl⟩
    · obtain ⟨e', he', hname⟩ := ih h
      exact ⟨e', List.mem_cons_of_mem e he', hname⟩

mutual

theorem isAt_of_mem_leaves : ∀ n : Node, n.isWellNamed = true → ∀ x ∈ n.leaves, n.IsAt x
  | .file content, _, x, hx => by
    rw [leaves, List.mem_singleton] at hx
    subst hx
    exact ⟨rfl, by simp⟩
  | .link target, _, x, hx => by
    rw [leaves, List.mem_singleton] at hx
    subst hx
    exact ⟨rfl, by simp⟩
  | .directory es, h, x, hx => by
    rw [leaves, List.mem_flatMap] at hx
    obtain ⟨f, hf, hx⟩ := hx
    obtain ⟨y, hy, rfl⟩ := List.mem_map.mp hx
    obtain ⟨hname, m, hm, hall⟩ := isAt_of_mem_entryLeaves es h f (List.mem_mergeSort.mp hf)
    obtain ⟨hfind, hnames⟩ := hall y hy
    refine ⟨?_, ?_⟩
    · rw [find?_cons, entry?, entries, hm]
      exact hfind
    · intro name hmem
      rcases List.mem_cons.mp hmem with rfl | hmem
      · exact hname
      · exact hnames name hmem

theorem isAt_of_mem_entryLeaves : ∀ es : List (String × Node), areWellNamed es = true → ∀ f ∈ entryLeaves es,
    Path.IsFileName f.1 ∧ ∃ m, es.lookup f.1 = some m ∧ ∀ x ∈ f.2, m.IsAt x
  | [], _, f, hf => by simp [entryLeaves] at hf
  | e :: es, h, f, hf => by
    obtain ⟨hname, hother, hwell, hrest⟩ := areWellNamed_cons.mp h
    rw [entryLeaves, List.mem_cons] at hf
    rcases hf with rfl | hf
    · refine ⟨hname, e.2, by rw [lookup_cons, if_pos rfl], ?_⟩
      exact isAt_of_mem_leaves e.2 hwell
    · -- an entry behind `e` has another name
      obtain ⟨e', he', heq⟩ := names_of_mem_entryLeaves hf
      have hne : f.1 ≠ e.1 := heq ▸ hother e' he'
      obtain ⟨hname', m, hm, hall⟩ := isAt_of_mem_entryLeaves es hrest f hf
      exact ⟨hname', m, by rwa [lookup_cons, if_neg hne], hall⟩

end

/-- A walk finds every file at its place. -/
theorem isAt_of_mem_files {n : Node} (h : n.isWellNamed = true) {x : List String × ByteArray} (hx : x ∈ n.files) :
    n.find? x.1 = some (.file x.2) ∧ ∀ name ∈ x.1, Path.IsFileName name := by
  obtain ⟨y, hy, hfile⟩ := List.mem_filterMap.mp hx
  have hat := isAt_of_mem_leaves n h y hy
  split at hfile
  · rename_i content hcontent
    obtain rfl := Option.some.inj hfile
    rw [IsAt, hcontent] at hat
    exact hat
  · cases hfile

/-! ## Every file -/

mutual

theorem mem_leaves_of_find? : ∀ n : Node, n.isWellNamed = true → ∀ {place : List String} {m : Node},
    n.find? place = some m → m.item ≠ .directory → (place, m) ∈ n.leaves
  | .file content, _, [], m, hm, _ => by
    obtain rfl := Option.some.inj hm
    exact List.mem_singleton_self _
  | .link target, _, [], m, hm, _ => by
    obtain rfl := Option.some.inj hm
    exact List.mem_singleton_self _
  | .directory es, _, [], m, hm, hitem => by
    obtain rfl := Option.some.inj hm
    exact absurd rfl hitem
  | .file content, _, name :: place, m, hm, _ => by
    rw [find?_cons_of_not_directory (by simp [item])] at hm
    cases hm
  | .link target, _, name :: place, m, hm, _ => by
    rw [find?_cons_of_not_directory (by simp [item])] at hm
    cases hm
  | .directory es, h, name :: place, m, hm, hitem => by
    rw [find?_cons, Option.bind_eq_some_iff] at hm
    obtain ⟨child, hentry, hm⟩ := hm
    obtain ⟨f, hf, hname, hleaf⟩ := mem_entryLeaves_of_lookup es h hentry hm hitem
    rw [leaves, List.mem_flatMap]
    exact ⟨f, List.mem_mergeSort.mpr hf, List.mem_map.mpr ⟨(place, m), hleaf, by rw [hname]⟩⟩

theorem mem_entryLeaves_of_lookup : ∀ es : List (String × Node), areWellNamed es = true →
    ∀ {name : String} {place : List String} {child m : Node}, es.lookup name = some child →
      child.find? place = some m → m.item ≠ .directory → ∃ f ∈ entryLeaves es, f.1 = name ∧ (place, m) ∈ f.2
  | [], _, _, _, _, _, hchild, _, _ => by cases hchild
  | e :: es, h, name, place, child, m, hchild, hm, hitem => by
    obtain ⟨-, -, hwell, hrest⟩ := areWellNamed_cons.mp h
    rw [entryLeaves]
    rw [lookup_cons] at hchild
    split at hchild
    · rename_i hname
      obtain rfl := Option.some.inj hchild
      exact ⟨_, List.mem_cons_self, hname.symm, mem_leaves_of_find? e.2 hwell hm hitem⟩
    · obtain ⟨f, hf, hleaf⟩ := mem_entryLeaves_of_lookup es hrest hchild hm hitem
      exact ⟨f, List.mem_cons_of_mem _ hf, hleaf⟩

end

/-- A walk finds exactly the files of the tree, each at its place. -/
theorem mem_files_iff {n : Node} (h : n.isWellNamed = true) {place : List String} {content : ByteArray} :
    (place, content) ∈ n.files ↔ n.find? place = some (.file content) := by
  constructor
  · intro hx
    exact (isAt_of_mem_files h hx).1
  · intro hfile
    exact List.mem_filterMap.mpr ⟨_, mem_leaves_of_find? n h hfile (by simp [item]), rfl⟩

/-! ## The order of a walk -/

theorem nameLe_trans {α : Type} (a b c : String × α) (hab : nameLe a b = true) (hbc : nameLe b c = true) :
    nameLe a c = true := by
  simp only [nameLe, decide_eq_true_eq] at hab hbc ⊢
  exact String.le_trans hab hbc

theorem nameLe_total {α : Type} (a b : String × α) : (nameLe a b || nameLe b a) = true := by
  simp only [nameLe, Bool.or_eq_true, decide_eq_true_eq]
  exact String.le_total a.1 b.1

/-- Different entries have different names. -/
theorem pairwise_ne_entryLeaves {es : List (String × Node)} (h : areWellNamed es = true) :
    (entryLeaves es).Pairwise fun f g => f.1 ≠ g.1 := by
  induction es with
  | nil => exact List.Pairwise.nil
  | cons e es ih =>
    obtain ⟨-, hother, -, hrest⟩ := areWellNamed_cons.mp h
    refine List.Pairwise.cons ?_ (ih hrest)
    intro f hf hname
    obtain ⟨e', he', heq⟩ := names_of_mem_entryLeaves hf
    exact hother e' he' (heq.trans hname.symm)

/-- Sorted, they come in the order of their names. -/
theorem pairwise_lt_sorted {es : List (String × Node)} (h : areWellNamed es = true) :
    ((entryLeaves es).mergeSort nameLe).Pairwise fun f g => f.1 < g.1 := by
  have hother : ((entryLeaves es).mergeSort nameLe).Pairwise fun f g => f.1 ≠ g.1 :=
    (List.mergeSort_perm _ _).symm.pairwise (pairwise_ne_entryLeaves h) Ne.symm
  have hle := List.pairwise_mergeSort nameLe_trans nameLe_total (entryLeaves es)
  refine (hle.and hother).imp ?_
  rintro f g ⟨hfg, hne⟩
  have hle : f.1 ≤ g.1 := of_decide_eq_true hfg
  exact String.not_le.mp fun hge => hne (String.le_antisymm hle hge)

mutual

/-- The places of a walk come in the order in which names are compared one after the other. -/
theorem pairwise_leaves : ∀ n : Node, n.isWellNamed = true → n.leaves.Pairwise fun x y => x.1 < y.1
  | .file content, _ => List.pairwise_singleton _ _
  | .link target, _ => List.pairwise_singleton _ _
  | .directory es, h => by
    rw [leaves, List.pairwise_flatMap]
    constructor
    · -- below one entry
      intro f hf
      refine List.pairwise_map.mpr ((pairwise_entryLeaves es h f (List.mem_mergeSort.mp hf)).imp ?_)
      intro x y hxy
      exact List.cons_lt_cons_self.mpr hxy
    · -- below two entries, where their names decide
      refine (pairwise_lt_sorted h).imp ?_
      intro f g hfg x hx y hy
      obtain ⟨x, -, rfl⟩ := List.mem_map.mp hx
      obtain ⟨y, -, rfl⟩ := List.mem_map.mp hy
      exact List.Lex.rel hfg

theorem pairwise_entryLeaves : ∀ es : List (String × Node), areWellNamed es = true → ∀ f ∈ entryLeaves es,
    f.2.Pairwise fun x y => x.1 < y.1
  | [], _, f, hf => by simp [entryLeaves] at hf
  | e :: es, h, f, hf => by
    obtain ⟨-, -, hwell, hrest⟩ := areWellNamed_cons.mp h
    rw [entryLeaves, List.mem_cons] at hf
    rcases hf with rfl | hf
    · exact pairwise_leaves e.2 hwell
    · exact pairwise_entryLeaves es hrest f hf

end

/-- Files come in the order of their places, each once. -/
theorem pairwise_files {n : Node} (h : n.isWellNamed = true) : n.files.Pairwise fun x y => x.1 < y.1 := by
  refine (pairwise_leaves n h).filterMap _ ?_
  rintro ⟨place, n⟩ ⟨place', n'⟩ hlt b hb b' hb'
  -- a file keeps the place of its leaf
  rcases n with content | _ | _
  · rcases n' with content' | _ | _
    · rw [← Option.some.inj hb, ← Option.some.inj hb']
      exact hlt
    all_goals cases hb'
  all_goals cases hb

/-- The names of a place lead to it, for there is no link on the way. -/
theorem leads_of_find? {top n m : Node} {place names : List String} (hplace : top.find? place = some n)
    (hfind : n.find? names = some m) (hm : ∀ target, m.item ≠ .link target) :
    top.Leads 0 place (names.map Component.name) (place ++ names) := by
  induction names generalizing place n with
  | nil =>
    rw [List.append_nil]
    exact .stop
  | cons name names ih =>
    rw [find?_cons, Option.bind_eq_some_iff] at hfind
    obtain ⟨child, hentry, hfind⟩ := hfind
    have hchild : top.find? (place ++ [name]) = some child := by
      rw [find?_append, hplace, Option.bind_some, find?_cons, hentry]
      rfl
    have hdirectory : top.itemAt? place = some .directory := by
      obtain ⟨es, rfl, -⟩ := exists_of_entry? hentry
      exact itemAt?_of_find? hplace
    have hlink : ∀ target, child.item ≠ .link target := by
      intro target hitem
      obtain rfl := item_eq_link hitem
      cases names with
      | nil =>
        obtain rfl := Option.some.inj hfind
        exact hm target rfl
      | cons name' names => cases hfind
    have hrest := ih hchild hfind
    rw [List.append_assoc] at hrest
    exact .entry hdirectory (itemAt?_of_find? hchild) hlink hrest

end FieldInjection.Node

namespace FieldInjection

/-- A disk on which the entries of every directory have different names, and names that entries can have. -/
structure NamedDisk extends Disk where
  isWellNamed : top.isWellNamed = true

end FieldInjection
