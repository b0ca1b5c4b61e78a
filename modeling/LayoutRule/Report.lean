import LayoutRule.Files.Basic
import LayoutRule.Format.Document
import LayoutRule.Format.Dump
import LayoutRule.Format.Name
import LayoutRule.Format.TreeView
import LayoutRule.Tree.Outline

/-! # Reports

A report is the result of one stage over a text, written in one form. -/

namespace LayoutRule

inductive Error where
  | lex (cause : LexError)
  | outline (cause : OutlineError)
  | format (cause : FormatError)
  | file (cause : FileError)
  deriving DecidableEq, Repr

def Error.message : Error → String
  | lex e => e.message
  | outline e => e.message
  | format e => e.message
  | file e => "I/O error: " ++ e.message

/-- The block tree of a text. -/
def outlineText (config : TrackerConfig) (text : String) : Except Error (List Node) :=
  match lexWith config text with
  | .error e => .error (.lex e)
  | .ok tokens => (outline tokens).mapError .outline

/-- The report of a text in a format. -/
def report (format : Format) (config : TrackerConfig) (text : String) : Except Error String :=
  match format with
  | .tokenSimple => ((lexWith config text).map dump).mapError .lex
  | .tokenJson => ((lexWith config text).map fun ts => (tokensDocument ts).prettyText).mapError .lex
  | .tokenRawSimple => ((tokenize text).map dump).mapError .lex
  | .tokenRawJson => ((tokenize text).map fun ts => (tokensDocument ts).prettyText).mapError .lex
  | .treeView => (outlineText config text).map treeView
  | .treeJson => (outlineText config text).map fun ns => (forestDocument ns).prettyText

/-- The report of a file in a format. -/
def reportFile (files : Files) (format : Format) (config : TrackerConfig) (path : String) : Except Error String :=
  match files.text path with
  | .error e => .error (.file e)
  | .ok text => report format config text

end LayoutRule
