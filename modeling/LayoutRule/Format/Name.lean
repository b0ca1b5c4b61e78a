/-! # Format names

A format name gives the stage whose result is written, a hyphen, and the form in which it is written. Not
every form suits every stage. -/

namespace LayoutRule

inductive Stage where
  | token
  | tree
  deriving DecidableEq, Repr

inductive Form where
  | simple
  | json
  | rawSimple
  | rawJson
  | treeView
  deriving DecidableEq, Repr

/-- The formats there are: tracked tokens and raw tokens as a dump or as JSON, trees as a view or as JSON. -/
inductive Format where
  | tokenSimple
  | tokenJson
  | tokenRawSimple
  | tokenRawJson
  | treeView
  | treeJson
  deriving DecidableEq, Repr

inductive FormatError where
  | noStage (name : String)
  | unknownStage (stage : String)
  | unknownForm (form : String)
  | viewNeedsTree
  | rawNeedsTokens
  | simpleNeedsTokens
  deriving DecidableEq, Repr

def FormatError.message : FormatError → String
  | noStage name => "invalid format: " ++ name
  | unknownStage stage => "invalid stage: " ++ stage
  | unknownForm form => "invalid format: " ++ form
  | viewNeedsTree => "invalid format: treeviz only works with the tree stage"
  | rawNeedsTokens => "invalid format: raw formats only work with the token stage"
  | simpleNeedsTokens => "invalid format: simple only works with the token stage"

namespace Stage

def name : Stage → String
  | token => "token"
  | tree => "tree"

def ofName? (s : String) : Option Stage :=
  [token, tree].find? fun stage => stage.name == s

end Stage

namespace Form

def name : Form → String
  | simple => "simple"
  | json => "json"
  | rawSimple => "raw-simple"
  | rawJson => "raw-json"
  | treeView => "treeviz"

def ofName? (s : String) : Option Form :=
  [simple, json, rawSimple, rawJson, treeView].find? fun form => form.name == s

end Form

namespace Format

/-- Every format, in the order in which they are listed. -/
def all : List Format :=
  [tokenSimple, tokenJson, tokenRawSimple, tokenRawJson, treeView, treeJson]

def stage : Format → Stage
  | tokenSimple | tokenJson | tokenRawSimple | tokenRawJson => .token
  | treeView | treeJson => .tree

def form : Format → Form
  | tokenSimple => .simple
  | tokenJson | treeJson => .json
  | tokenRawSimple => .rawSimple
  | tokenRawJson => .rawJson
  | treeView => .treeView

def name (f : Format) : String :=
  f.stage.name ++ "-" ++ f.form.name

/-- The format of a stage in a form that suits it. -/
def combine : Stage → Form → Except FormatError Format
  | .token, .simple => .ok tokenSimple
  | .token, .json => .ok tokenJson
  | .token, .rawSimple => .ok tokenRawSimple
  | .token, .rawJson => .ok tokenRawJson
  | .token, .treeView => .error .viewNeedsTree
  | .tree, .simple => .error .simpleNeedsTokens
  | .tree, .json => .ok treeJson
  | .tree, .rawSimple => .error .rawNeedsTokens
  | .tree, .rawJson => .error .rawNeedsTokens
  | .tree, .treeView => .ok treeView

/-- Reads a format name; the stage is what stands before the first hyphen. -/
def ofName (s : String) : Except FormatError Format :=
  let (stage, behind) := s.toList.span (· != '-')
  match behind with
  | [] => .error (.noStage s)
  | _ :: form =>
      match Stage.ofName? (String.ofList stage) with
      | none => .error (.unknownStage (String.ofList stage))
      | some stage =>
          match Form.ofName? (String.ofList form) with
          | none => .error (.unknownForm (String.ofList form))
          | some form => combine stage form

theorem combine_stage_form (f : Format) : combine f.stage f.form = .ok f := by
  cases f <;> rfl

end Format

end LayoutRule
