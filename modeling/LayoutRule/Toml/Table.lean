import LayoutRule.Json.Basic
import LayoutRule.Toml.Text

/-! # Tables in the making

A table comes about in one of three ways, and that decides who may still add to it: by a header of its own,
on the way of a longer header, or on the way of a key with points. A list of tables grows by headers in
double brackets, and what follows goes to its last table. -/

namespace LayoutRule.Toml

/-- How a table came about. -/
inductive Origin where
  | header
  | passage
  | dotted
  deriving DecidableEq, Repr

inductive Entry where
  | value (value : Json)
  | table (origin : Origin) (entries : List (String × Entry))
  | tables (earlier : List (List (String × Entry))) (latest : List (String × Entry))

abbrev Entries := List (String × Entry)

/-- Puts an entry in the place of the one under its name. -/
def replaceEntry (name : String) (entry : Entry) : Entries → Entries
  | [] => []
  | (n, e) :: rest => if n = name then (n, entry) :: rest else (n, e) :: replaceEntry name entry rest

/-- Changes the table at the end of a path, making the tables on the way as needed. A key with points
passes only through tables that no header made. -/
def changeAt (byKey : Bool) (change : Origin → Entries → Option Entries) :
    List String → Origin → Entries → Option Entries
  | [], origin, entries => change origin entries
  | name :: path, _, entries =>
      match entries.lookup name with
      | none => do
          let origin := if byKey then Origin.dotted else .passage
          let inner ← changeAt byKey change path origin []
          return entries ++ [(name, .table origin inner)]
      | some (.value _) => none
      | some (.tables earlier latest) => do
          let inner ← changeAt byKey change path .header latest
          return replaceEntry name (.tables earlier inner) entries
      | some (.table origin inner) =>
          if byKey ∧ origin = .header then none else do
            let inner ← changeAt byKey change path origin inner
            return replaceEntry name (.table origin inner) entries

/-- Adds an entry under a name that is still free. -/
def addNew (name : String) (entry : Entry) (entries : Entries) : Option Entries :=
  match entries.lookup name with
  | some _ => none
  | none => some (entries ++ [(name, entry)])

/-- Assigns a value to a key, counted from the table being filled. -/
def assign (key : Key) (value : Json) (entries : Entries) : Option Entries :=
  changeAt true (fun origin inner =>
    if key.outer.isEmpty ∨ origin = .dotted then addNew key.last (.value value) inner else none)
    key.outer .header entries

/-- A header opens a table that is new or was only passed through. -/
def openTable (key : Key) (root : Entries) : Option Entries :=
  changeAt false (fun _ inner =>
    match inner.lookup key.last with
    | none => some (inner ++ [(key.last, .table .header [])])
    | some (.table .passage entries) => some (replaceEntry key.last (.table .header entries) inner)
    | some _ => none)
    key.outer .header root

/-- A header in double brackets opens one table more in a list of tables. -/
def openListed (key : Key) (root : Entries) : Option Entries :=
  changeAt false (fun _ inner =>
    match inner.lookup key.last with
    | none => some (inner ++ [(key.last, .tables [] [])])
    | some (.tables earlier latest) => some (replaceEntry key.last (.tables (earlier ++ [latest]) []) inner)
    | some _ => none)
    key.outer .header root

/-- Assigns a value to a key in the table under the last header. -/
def assignUnder (header? : Option Key) (key : Key) (value : Json) (root : Entries) : Option Entries :=
  match header? with
  | none => assign key value root
  | some header => changeAt false (fun _ inner => assign key value inner) (header.outer ++ [header.last]) .header root

mutual

/-- The finished value of an entry. -/
def Entry.toJson : Entry → Json
  | .value v => v
  | .table _ entries => .object (entriesToFields entries)
  | .tables earlier latest => .array (tablesToItems earlier ++ [.object (entriesToFields latest)])

def entriesToFields : List (String × Entry) → List (String × Json)
  | [] => []
  | (name, e) :: rest => (name, e.toJson) :: entriesToFields rest

def tablesToItems : List (List (String × Entry)) → List Json
  | [] => []
  | entries :: rest => .object (entriesToFields entries) :: tablesToItems rest

end

end LayoutRule.Toml
