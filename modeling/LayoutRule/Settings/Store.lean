import LayoutRule.Json.Basic
import LayoutRule.Settings.KeyPath
import LayoutRule.Text.Lowercase

/-! # The settings store

The store is one object of nested settings. A table that is put in is merged name by name, anything else
replaces what was there. Names are kept in lower case, except inside lists.

Of two names in one table that differ in case only, the one that the document names later wins. A loader that keeps
tables unordered leaves open which of the two does; the order of the document is one of the orders it may take. -/

namespace LayoutRule.Settings

/-- The fields of a table; anything else gives way to an empty one. -/
def tableFields : Json → List (String × Json)
  | .object fields => fields
  | _ => []

/-- The items of a list; anything else gives way to an empty one. -/
def listItems : Json → List Json
  | .array items => items
  | _ => []

mutual

/-- Puts a value under a name of a table, in lower case. What stood there under a name that differs in case only is
merged with it or replaced. -/
def mergeField (name : String) (table : Json) : Json → Json
  | .object incoming =>
      let fields := tableFields table
      let old := (fields.lookup (lowercase name)).getD (.object [])
      .object (Json.putField (lowercase name) (mergeFields old incoming) fields)
  | value => .object (Json.putField (lowercase name) value (tableFields table))

/-- Puts fields into a value, which becomes a table if any come. They are put in one after another, in the order of the
document. -/
def mergeFields (old : Json) : List (String × Json) → Json
  | [] => old
  | (name, value) :: rest => mergeFields (mergeField name old value) rest

end

/-- Makes a place in a list: missing items are null, in front for a place before the first. -/
def makePlace (items : List Json) (place : Int) : List Json × Nat :=
  let size : Int := items.length
  if 0 ≤ place then (items ++ List.replicate (place + 1 - size).toNat .null, place.toNat)
  else (List.replicate (-place - size).toNat .null ++ items, (size + place).toNat)

/-- Puts a value at the end of some steps. Whatever stands in the way gives way to a table or a list. -/
def putAt (value : Json) : List PathStep → Json → Json
  | [], _ => value
  | [.child name], here => mergeField name here value
  | .child name :: rest, here =>
      let old := ((tableFields here).lookup (lowercase name)).getD .null
      .object (Json.putField (lowercase name) (putAt value rest old) (tableFields here))
  | .index place :: rest, here =>
      let (items, n) := makePlace (listItems here) place
      .array (items.set n (putAt value rest (items.getD n .null)))

/-- Puts a value at a path. -/
def put (path : KeyPath) (value : Json) (store : Json) : Json :=
  putAt value (.child path.root :: path.steps) store

/-- Puts a value at the path that a name spells, or under the name itself if it spells none. -/
def putNamed (name : String) (value : Json) (store : Json) : Json :=
  match KeyPath.read name with
  | .ok path => put path value store
  | .error _ => mergeField name store value

/-- Lays the fields of a document over the store, in the order of the document. The order decides only between names that
are one in lower case, where a loader with unordered tables may come out either way. -/
def layer (store : Json) (document : List (String × Json)) : Json :=
  document.foldl (fun store (name, value) => putNamed name value store) store

end LayoutRule.Settings
