import LayoutRule.Token.Basic

/-! # Sample layouts

Token lists and texts with one statement per line, for a given list of columns. -/

namespace LayoutRule.Sample

/-- A token whose span covers its text from the given offset on. -/
def token (kind : TokenKind) (text : String) (line column offset : Nat) : Token :=
  ⟨kind, text, line, column, ⟨offset, offset + text.utf8ByteSize⟩⟩

def nameToken (text : String) (line column offset : Nat) : Token :=
  token .name text line column offset

def lineBreak (line column offset : Nat) : Token :=
  token .lineBreak "\n" line column offset

/-- The name that stands on a line. -/
def lineName (line : Nat) : String :=
  "t" ++ toString line

/-- The tokens from a line on that begins at the given offset. -/
def linesFrom (line offset : Nat) : List Nat → List Token
  | [] => [Token.endOfInput line 0 offset]
  | column :: columns =>
      let name := nameToken (lineName line) line column (offset + column)
      let breakColumn := column + (lineName line).utf8ByteSize
      name :: lineBreak line breakColumn (offset + breakColumn) ::
        linesFrom (line + 1) (offset + breakColumn + 1) columns

/-- One name token per line at each column, line breaks between, and the end token. -/
def linesAt (columns : List Nat) : List Token :=
  linesFrom 1 0 columns

def textFrom (line : Nat) : List Nat → List Char
  | [] => []
  | column :: columns =>
      List.replicate column ' ' ++ (lineName line).toList ++ '\n' :: textFrom (line + 1) columns

/-- The text of those lines. -/
def textAt (columns : List Nat) : String :=
  String.ofList (textFrom 1 columns)

/-- Ordinary tokens by their text, all others by the name of their kind. -/
def render (tokens : List Token) : String :=
  " ".intercalate (tokens.map fun t => if t.kind.isOrdinary then t.text else t.kind.label)

end LayoutRule.Sample
