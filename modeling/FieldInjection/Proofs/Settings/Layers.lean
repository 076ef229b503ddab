import FieldInjection.Settings.Format

/-!
# Settings in layers

A layer tells settings if it has each of them under its key in its section (`Setting.Tells`). What a form of settings
has to keep to is put together in `SettingsFormat.IsFaithful`: it writes all settings and reads what it writes, and it
merges layers key by key. Then the last layer that says all settings has the last word (`IsFaithful.tells_merge`).
-/

namespace FieldInjection

namespace Setting

/-- What stands under a path of keys. -/
def at? (layer : Setting) : List String → Option Setting
  | [] => some layer
  | key :: keys => (layer.member? key).bind fun member => member.at? keys

/-- All values of a layer stand in another one too. -/
def IsWithin (layer other : Setting) : Prop :=
  ∀ keys value, layer.at? keys = some value → value.isTable = false → other.at? keys = some value

end Setting

/-- All settings with their keys. -/
def Settings.entries (s : Settings) : List (List String × Setting) :=
  [(["project", "root"], .text s.project.root.text),
    (["project", "include"], .list (s.project.including.map .text)),
    (["project", "exclude"], .list (s.project.excluding.map .text)),
    (["migration", "class_files"], .text s.migration.classFiles),
    (["migration", "class_name_pattern"], .text s.migration.classNamePattern),
    (["migration", "accessor_module"], .text s.migration.accessorModule),
    (["migration", "accessor_function"], .text s.migration.accessorFunction),
    (["migration", "dry_run"], .boolean s.migration.isDryRun),
    (["logging", "level"], .text s.logging.level),
    (["logging", "json_format"], .boolean s.logging.asJson)]

/-- The layer has all settings under their keys. -/
def Setting.Tells (layer : Setting) (s : Settings) : Prop := ∀ e ∈ s.entries, layer.at? e.1 = some e.2

/-- What a form of settings keeps to. -/
structure SettingsFormat.IsFaithful (format : SettingsFormat) : Prop where
  layerOf_tells : ∀ s, (format.layerOf s).Tells s
  /-- Settings are found under their keys. -/
  extract?_eq : ∀ layer s, layer.Tells s → format.extract? layer = some s
  /-- The values of what is written are read again. -/
  read?_write : ∀ s, ∃ layer, format.read? (format.write s) = some layer ∧ (format.layerOf s).IsWithin layer
  /-- Tables are merged key by key. -/
  member?_merge : ∀ earlier later key, (format.merge (.table earlier) (.table later)).member? key =
    Option.merge format.merge (earlier.lookup key) (later.lookup key)
  /-- Anything else replaces what stood there before. -/
  merge_eq : ∀ earlier later, (earlier.isTable && later.isTable) = false → format.merge earlier later = later
  /-- Without a variable for settings the environment says nothing. -/
  environment_eq : ∀ assignments, (∀ e ∈ assignments, Environment.afterPrefix? e.1 = none) →
    format.environment assignments = .empty

section
variable {format : SettingsFormat} {layer earlier later value : Setting} {s : Settings} {keys : List String}

namespace Setting

theorem exists_table_of_member? {key : String} (h : layer.member? key = some value) :
    ∃ members, layer = .table members ∧ members.lookup key = some value := by
  cases layer with
  | table members => exact ⟨members, rfl, h⟩
  | _ => cases h

theorem isTable_eq_true_iff : layer.isTable = true ↔ ∃ members, layer = .table members := by
  cases layer <;> simp [isTable]

end Setting

theorem Settings.isTable_of_mem_entries {e : List String × Setting} (he : e ∈ s.entries) : e.2.isTable = false := by
  have hall : ∀ e ∈ s.entries, e.2.isTable = false := by
    simp only [Settings.entries, List.forall_mem_cons]
    simp [Setting.isTable]
  exact hall e he

theorem Settings.keys_ne_nil_of_mem_entries {e : List String × Setting} (he : e ∈ s.entries) : e.1 ≠ [] := by
  have hall : ∀ e ∈ s.entries, e.1 ≠ [] := by
    simp only [Settings.entries, List.forall_mem_cons]
    simp
  exact hall e he

/-- What is within a layer that tells settings is told by the layer around it. -/
theorem Setting.IsWithin.tells (h : layer.IsWithin later) (htells : layer.Tells s) : later.Tells s :=
  fun e he => h e.1 e.2 (htells e he) (Settings.isTable_of_mem_entries he)

namespace SettingsFormat.IsFaithful

/-- A value of the later layer stands in the merged one, whatever the earlier layer says. -/
theorem at?_merge (h : format.IsFaithful) (hat : later.at? keys = some value) (hvalue : value.isTable = false)
    (earlier : Setting) : (format.merge earlier later).at? keys = some value := by
  induction keys generalizing earlier later with
  | nil =>
    obtain rfl := Option.some.inj hat
    rw [h.merge_eq _ _ (by rw [hvalue, Bool.and_false])]
    rfl
  | cons key keys ih =>
    obtain ⟨member, hmember, hbelow⟩ := Option.bind_eq_some_iff.mp hat
    cases hearlier : earlier.isTable with
    | false =>
      rw [h.merge_eq _ _ (by rw [hearlier, Bool.false_and])]
      exact hat
    | true =>
      obtain ⟨members, rfl⟩ := Setting.isTable_eq_true_iff.mp hearlier
      obtain ⟨laterMembers, rfl, hlookup⟩ := Setting.exists_table_of_member? hmember
      rw [Setting.at?, h.member?_merge, hlookup]
      -- the member is merged over the earlier one of its key, if there is one
      cases members.lookup key with
      | none => exact hbelow
      | some old => exact ih hbelow old

/-- A later layer that tells settings has the last word. -/
theorem tells_merge (h : format.IsFaithful) (hlater : later.Tells s) (earlier : Setting) :
    (format.merge earlier later).Tells s :=
  fun e he => h.at?_merge (hlater e he) (Settings.isTable_of_mem_entries he) earlier

/-- A later layer that says nothing leaves what was said before. -/
theorem tells_merge_empty (h : format.IsFaithful) (hearlier : earlier.Tells s) :
    (format.merge earlier .empty).Tells s := by
  intro e he
  have hat := hearlier e he
  have hne := Settings.keys_ne_nil_of_mem_entries he
  cases hkeys : e.1 with
  | nil => exact absurd hkeys hne
  | cons key keys =>
    rw [hkeys] at hat
    obtain ⟨member, hmember, hbelow⟩ := Option.bind_eq_some_iff.mp hat
    obtain ⟨members, rfl, hlookup⟩ := Setting.exists_table_of_member? hmember
    rw [Setting.at?, Setting.empty, h.member?_merge, hlookup]
    exact hbelow

/-- A file with written settings tells them, merged over any layer and with nothing in the environment. -/
theorem extract?_written (h : format.IsFaithful) (s : Settings) : ∃ layer,
    format.read? (format.write s) = some layer ∧
      ∀ defaults, format.extract? (format.merge (format.merge defaults layer) .empty) = some s := by
  obtain ⟨layer, hread, hwithin⟩ := h.read?_write s
  refine ⟨layer, hread, fun defaults => h.extract?_eq _ _ ?_⟩
  exact h.tells_merge_empty (h.tells_merge (hwithin.tells (h.layerOf_tells s)) defaults)

end SettingsFormat.IsFaithful

end

end FieldInjection
