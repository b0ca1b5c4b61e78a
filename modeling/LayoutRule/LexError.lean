import LayoutRule.Text.Quoted

/-! # Errors of pulls

A source has errors of its own, and a tracker in front of it adds two. Nothing that passes tokens on looks into the
errors of a source. -/

namespace LayoutRule

/-- A line whose column lies between two open columns: `nearest` is the greater of those below it. -/
structure RaggedDedent where
  line : Nat
  column : Nat
  nearest : Nat
  deriving DecidableEq, Repr

/-- Why a pull gave no token: an error of the source itself, of the type `ε`, or one of the tracker. A type of errors
that takes in the two of the tracker is an image of such a sum, and nothing here tells errors apart but to say which of
the three they are. -/
inductive SourceError (ε : Type) where
  | own (cause : ε)
  | raggedDedent (dedent : RaggedDedent)
  | useAfterEnd
  deriving DecidableEq, Repr

/-! ## Lexing errors -/

/-- Text that begins no token, and where it stands. -/
structure UnexpectedCharacter where
  line : Nat
  column : Nat
  text : String
  deriving DecidableEq, Repr

/-- Why a pull gave no token when the source is a text. -/
abbrev LexError := SourceError UnexpectedCharacter

@[match_pattern]
abbrev SourceError.unexpectedCharacter (line column : Nat) (text : String) : LexError := .own ⟨line, column, text⟩

def LexError.message : LexError → String
  | .unexpectedCharacter line column text =>
      s!"line {line}, column {column}: unexpected character {quoted text}"
  | .raggedDedent d =>
      s!"line {d.line}, column {d.column}: unindent does not match any outer indentation level (nearest is {d.nearest})"
  | .useAfterEnd => "token requested after end of input was returned"

end LayoutRule
