import LayoutRule.Token.Kind

/-! # Vocabulary

The gaps and lexemes of the language. A lexeme is always as long as it can be: a word takes every
character that fits, and an operator of two characters wins over one of a single character. -/

namespace LayoutRule.Vocabulary

def isBlank (c : Char) : Bool :=
  c = ' ' || c = '\t' || c = '\x0c'

def endsLine (c : Char) : Bool :=
  c = '\r' || c = '\n'

def isNameStart (c : Char) : Bool :=
  c.isAlpha || c = '_'

def isNameChar (c : Char) : Bool :=
  c.isAlphanum || c = '_'

def isQuote (c : Char) : Bool :=
  c = '"' || c = '\''

/-- The words that are no names. -/
def keywords : List String :=
  ["def", "if", "elif", "else", "while", "for", "in", "return", "pass", "break", "continue", "and", "or", "not",
    "True", "False", "None"]

def wordKind (cs : List Char) : TokenKind :=
  if String.ofList cs ∈ keywords then .keyword else .name

/-- The character is an operator by itself. -/
def isOperator (c : Char) : Bool :=
  c ∈ ['=', '<', '>', '+', '-', '*', '/', '%']

/-- The character is an operator together with an equals sign behind it. -/
def joinsEquals (c : Char) : Bool :=
  c ∈ ['=', '!', '<', '>']

def isDelimiter (c : Char) : Bool :=
  c ∈ ['(', ')', '[', ']', ',', ':', '.']

/-- The gap in front of a text: blanks, and a comment up to the end of its line. -/
def gap : List Char → List Char
  | [] => []
  | c :: cs =>
      if isBlank c then c :: gap cs
      else if c = '#' then c :: cs.takeWhile (!endsLine ·)
      else []

/-- A point with at least one digit behind it. -/
def fraction : List Char → List Char
  | '.' :: cs =>
      match cs.takeWhile Char.isDigit with
      | [] => []
      | ds => '.' :: ds
  | _ => []

/-- The contents of a quoted string, as far as they go: plain characters, and any character but a line
feed behind a backslash. -/
def quotedRun (quote : Char) : List Char → List Char
  | [] => []
  | '\\' :: c :: cs => if c = '\n' then [] else '\\' :: c :: quotedRun quote cs
  | c :: cs => if c = quote ∨ c = '\\' ∨ endsLine c then [] else c :: quotedRun quote cs

/-- The lexeme at the front of a text, with its kind. -/
def lexeme? : List Char → Option (TokenKind × List Char)
  | [] => none
  | c :: cs =>
      if isNameStart c then
        let word := c :: cs.takeWhile isNameChar
        some (wordKind word, word)
      else if c.isDigit then
        let whole := c :: cs.takeWhile Char.isDigit
        some (.number, whole ++ fraction (cs.dropWhile Char.isDigit))
      else if isQuote c then
        let run := quotedRun c cs
        if (cs.drop run.length).head? = some c then some (.string, c :: (run ++ [c])) else none
      else if c = '\n' then some (.lineBreak, [c])
      else if c = '\r' then
        if cs.head? = some '\n' then some (.lineBreak, [c, '\n']) else none
      else if isDelimiter c then some (.delimiter, [c])
      else if joinsEquals c ∧ cs.head? = some '=' then some (.operator, [c, '='])
      else if isOperator c then some (.operator, [c])
      else none

/-- The text refused at the front of a text that begins with no lexeme: an opening quote with the contents
that follow it, or a single character. The patterns of the lexemes do not determine it. How far a lexer made from them
goes before it gives up is left to what makes the lexer, so this is an assumption about that; the theory uses of it
that it is a prefix, not empty unless nothing is left, without a line feed, and independent of what stands behind its
line. -/
def stray : List Char → List Char
  | [] => []
  | c :: cs => if isQuote c then c :: quotedRun c cs else [c]

end LayoutRule.Vocabulary
