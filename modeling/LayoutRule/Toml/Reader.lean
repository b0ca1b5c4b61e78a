import LayoutRule.Toml.Scalar
import LayoutRule.Toml.Table

/-! # Reading TOML

A document is read line by line into one object. -/

namespace LayoutRule.Toml

/-- The most arrays and inline tables that may stand around a value. -/
def depthLimit : Nat := 79

mutual

/-- Reads a value off the front; each step of the reading uses up one unit of `fuel`. -/
def valueWithin (depth : Nat) : Nat → List Char → Option (Json × List Char)
  | 0, _ => none
  | fuel + 1, cs =>
      match cs with
      | [] => none
      | '[' :: rest =>
          if depth < depthLimit then (itemsWithin (depth + 1) fuel rest).map fun (js, rest) => (.array js, rest)
          else none
      | '\x7b' :: rest =>
          if depth < depthLimit then
            match skipBlanks rest with
            | '\x7d' :: rest => some (.object [], rest)
            | rest => (fieldsWithin (depth + 1) fuel [] rest).map fun (fs, rest) => (.object (entriesToFields fs), rest)
          else none
      | c :: _ =>
          if c = '"' ∨ c = '\'' then (string? cs).map fun (s, rest) => (.string (String.ofList s), rest)
          else do
            let (run, rest) := scalarRun cs
            return (← scalar? run, rest)

/-- Reads the items of an array up to its closing bracket; line ends and comments may stand around them,
and a comma behind the last. -/
def itemsWithin (depth : Nat) : Nat → List Char → Option (List Json × List Char)
  | 0, _ => none
  | fuel + 1, cs =>
      match skipLines cs.length cs with
      | ']' :: rest => some ([], rest)
      | cs => do
          let (item, rest) ← valueWithin depth fuel cs
          match skipLines rest.length rest with
          | ',' :: rest =>
              let (items, rest) ← itemsWithin depth fuel rest
              return (item :: items, rest)
          | ']' :: rest => return ([item], rest)
          | _ => none

/-- Reads the fields of an inline table up to its closing brace, all on one line. -/
def fieldsWithin (depth : Nat) : Nat → Entries → List Char → Option (Entries × List Char)
  | 0, _, _ => none
  | fuel + 1, fields, cs => do
      let (key, rest) ← key? cs
      match rest with
      | '=' :: rest =>
          let (value, rest) ← valueWithin depth fuel (skipBlanks rest)
          let fields ← assign key value fields
          match skipBlanks rest with
          | ',' :: rest => fieldsWithin depth fuel fields rest
          | '\x7d' :: rest => return (fields, rest)
          | _ => none
      | _ => none

end

/-- A line that is not blank. -/
inductive Line where
  | assignment (key : Key) (value : Json)
  | header (key : Key)
  | listHeader (key : Key)
  deriving DecidableEq, Repr

/-- Reads a line off the front, up to a comment or the line end. -/
def line? (cs : List Char) : Option (Line × List Char) :=
  match cs with
  | '[' :: '[' :: rest => do
      match ← key? rest with
      | (key, ']' :: ']' :: rest) => return (.listHeader key, rest)
      | _ => none
  | '[' :: rest => do
      match ← key? rest with
      | (key, ']' :: rest) => return (.header key, rest)
      | _ => none
  | _ => do
      match ← key? cs with
      | (key, '=' :: rest) =>
          let (value, rest) ← valueWithin 0 rest.length (skipBlanks rest)
          return (.assignment key value, rest)
      | _ => none

/-- The document so far and the header its next assignments belong to. -/
structure Document where
  root : Entries
  header? : Option Key

namespace Document

def take? (d : Document) : Line → Option Document
  | .assignment key value => (assignUnder d.header? key value d.root).map fun root => { d with root }
  | .header key => (openTable key d.root).map fun root => ⟨root, some key⟩
  | .listHeader key => (openListed key d.root).map fun root => ⟨root, some key⟩

/-- Takes the lines of a text, `fuel` at most. -/
def linesWithin : Nat → Document → List Char → Option Document
  | 0, d, cs => if cs.isEmpty then some d else none
  | fuel + 1, d, cs =>
      match skipLines cs.length cs with
      | [] => some d
      | cs => do
          let (line, rest) ← line? cs
          let d ← d.take? line
          match skipComment (skipBlanks rest) with
          | [] => return d
          | rest => linesWithin fuel d (← lineEnd? rest)

end Document

/-- A mark of the byte order at the very start is no part of the text. -/
def dropByteOrderMark : List Char → List Char
  | '\ufeff' :: cs => cs
  | cs => cs

/-- The object that a TOML text spells. -/
def read? (s : String) : Option Json := do
  let cs := dropByteOrderMark s.toList
  let d ← Document.linesWithin cs.length ⟨[], none⟩ cs
  return .object (entriesToFields d.root)

end LayoutRule.Toml
