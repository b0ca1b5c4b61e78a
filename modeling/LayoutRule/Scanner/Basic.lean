import LayoutRule.Scanner.Position
import LayoutRule.Scanner.Vocabulary
import LayoutRule.Source.Trace

/-! # The scanner

The scanner skips the gap in front of the text that is left and takes the longest lexeme. Where no lexeme
begins it refuses what stands there and goes on behind it. -/

namespace LayoutRule

structure Scanner where
  rest : List Char
  position : Position
  deriving DecidableEq, Repr

namespace Scanner

def ofText (text : String) : Scanner :=
  ⟨text.toList, Position.start⟩

/-- Moves behind a run of characters in front of the text that is left. -/
def skip (s : Scanner) (cs : List Char) : Scanner :=
  ⟨s.rest.drop cs.length, s.position.advance cs⟩

/-- The scanner behind blanks and comments. -/
def skipGap (s : Scanner) : Scanner :=
  s.skip (Vocabulary.gap s.rest)

/-- A token with the given lexeme at this place. -/
def tokenAt (s : Scanner) (kind : TokenKind) (lexeme : List Char) : Token :=
  ⟨kind, String.ofList lexeme, s.position.line, s.position.column,
    ⟨s.position.offset, (s.position.advance lexeme).offset⟩⟩

/-- The end token at this place. -/
def endToken (s : Scanner) : Token :=
  Token.endOfInput s.position.line s.position.column s.position.offset

/-- The reply at a place with no gap in front. -/
def read (s : Scanner) : Reply × Scanner :=
  match Vocabulary.lexeme? s.rest with
  | some (kind, lexeme) => (.ok (s.tokenAt kind lexeme), s.skip lexeme)
  | none =>
      if s.rest.isEmpty then (.ok s.endToken, s)
      else
        let text := Vocabulary.stray s.rest
        (.error (.unexpectedCharacter s.position.line s.position.column (String.ofList text)), s.skip text)

def pull (s : Scanner) : Reply × Scanner :=
  s.skipGap.read

/-- Every token scanned is reported, but for the end token. -/
def report (s : Scanner) : List Event :=
  match s.pull.1 with
  | .ok t => if t.isEnd then [] else [.scanned t.kind t.line t.column]
  | .error _ => []

instance : ReportingSource Scanner UnexpectedCharacter where
  pull := pull
  horizon s := s.rest.length + 1
  report := report

end Scanner

/-- The raw tokens of a text, or the first error. -/
def tokenize (text : String) : Except LexError (List Token) :=
  TokenSource.drain (Scanner.ofText text)

end LayoutRule
