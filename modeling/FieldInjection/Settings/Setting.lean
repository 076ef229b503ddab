/-!
# Layers of settings

What a configuration file or the environment says is a tree of tables. A later layer is merged over an
earlier one key by key; whatever is not a table replaces what stood there before.

No setting is a number, so numbers are all alike here.
-/

namespace FieldInjection

/-- A value in a layer of settings. -/
inductive Setting where
  | text (value : String)
  | boolean (value : Bool)
  | number
  | list (items : List Setting)
  | table (members : List (String × Setting))

namespace Setting

/-- The table without members. -/
def empty : Setting := .table []

def isTable : Setting → Bool
  | table _ => true
  | _ => false

def member? (s : Setting) (key : String) : Option Setting :=
  match s with
  | table members => members.lookup key
  | _ => none

/-- Replaces the member of a key, or adds one at the end. -/
def putMember (key : String) (value : Setting) : List (String × Setting) → List (String × Setting)
  | [] => [(key, value)]
  | m :: ms => if m.1 = key then (key, value) :: ms else m :: putMember key value ms

mutual

/-- Merges a later value over an earlier one. -/
def merge (earlier : Setting) : Setting → Setting
  | .table later =>
    match earlier with
    | .table members => .table (mergeMembers members later)
    | _ => .table later
  | later => later

/-- Merges later members over earlier ones. -/
def mergeMembers (earlier : List (String × Setting)) :
    List (String × Setting) → List (String × Setting)
  | [] => earlier
  | m :: ms =>
    let value :=
      match earlier.lookup m.1 with
      | some old => merge old m.2
      | none => m.2
    putMember m.1 value (mergeMembers earlier ms)

end

/-- A value under a path of keys. -/
def nested (value : Setting) : List String → Setting
  | [] => value
  | key :: keys => .table [(key, nested value keys)]

end Setting

end FieldInjection
