import FieldInjection.Settings.Setting

/-!
# Building TOML tables

While a document is read, every table remembers how it came to be, because that decides what may be added to
it: a table that only stands on the way to another may still be opened by a header of its own, a table that
grew from dotted keys may grow by more of them, and a value is closed.
-/

namespace FieldInjection.Toml

/-- How a table came to be. -/
inductive Origin where
  /-- On the way of a header. -/
  | passed
  /-- By a header of its own. -/
  | opened
  /-- By dotted keys. -/
  | dotted
  deriving DecidableEq, Repr

/-- What stands under a key. -/
inductive Entry where
  | value (value : Setting)
  | table (origin : Origin) (members : List (String × Entry))
  /-- An array of tables, the last one first. -/
  | tables (last : List (String × Entry)) (earlier : List (List (String × Entry)))

abbrev Members := List (String × Entry)

mutual

def Entry.toSetting : Entry → Setting
  | .value value => value
  | .table _ members => .table (settingsOf members)
  | .tables last earlier => .list (tablesOf earlier [.table (settingsOf last)])

/-- The values of the entries of a table. -/
def settingsOf : List (String × Entry) → List (String × Setting)
  | [] => []
  | m :: ms => (m.1, m.2.toSetting) :: settingsOf ms

/-- The values of tables in backward order, in front of others. -/
def tablesOf : List (List (String × Entry)) → List Setting → List Setting
  | [], done => done
  | t :: ts, done => tablesOf ts (.table (settingsOf t) :: done)

end

/-- Replaces the entry of a key, or adds one at the end. -/
def putEntry (key : String) (entry : Entry) : Members → Members
  | [] => [(key, entry)]
  | m :: ms => if m.1 = key then (key, entry) :: ms else m :: putEntry key entry ms

/-- Changes the table that a header's keys lead to; tables that are missing on the way are made. -/
def within (change : Members → Option Members) : List String → Members → Option Members
  | [], members => change members
  | key :: keys, members =>
    match members.lookup key with
    | none => (within change keys []).map fun inner => putEntry key (.table .passed inner) members
    | some (.value _) => none
    | some (.table origin inner) =>
      (within change keys inner).map fun inner => putEntry key (.table origin inner) members
    | some (.tables last earlier) =>
      (within change keys last).map fun last => putEntry key (.tables last earlier) members

/-- Opens the table of a header's last key. -/
def openLast (key : String) (members : Members) : Option Members :=
  match members.lookup key with
  | none => some (putEntry key (.table .opened []) members)
  | some (.table .passed inner) => some (putEntry key (.table .opened inner) members)
  | some _ => none

/-- Opens the next table of an array by a header's last key. -/
def openNext (key : String) (members : Members) : Option Members :=
  match members.lookup key with
  | none => some (putEntry key (.tables [] []) members)
  | some (.tables last earlier) => some (putEntry key (.tables [] (last :: earlier)) members)
  | some _ => none

/-- Gives a value to a dotted key. -/
def assign (value : Setting) : List String → Members → Option Members
  | [], _ => none
  | [key], members =>
    match members.lookup key with
    | none => some (putEntry key (.value value) members)
    | some _ => none
  | key :: keys, members =>
    match members.lookup key with
    | none => (assign value keys []).map fun inner => putEntry key (.table .dotted inner) members
    | some (.table .dotted inner) =>
      (assign value keys inner).map fun inner => putEntry key (.table .dotted inner) members
    | some (.table .passed inner) =>
      if keys.length = 1 then none
      else (assign value keys inner).map fun inner => putEntry key (.table .passed inner) members
    | some _ => none

end FieldInjection.Toml
