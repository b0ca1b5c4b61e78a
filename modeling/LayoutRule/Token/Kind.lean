/-! # Token kinds

The ten kinds of token, their code numbers and their upper-case names. -/

namespace LayoutRule

/-- Lexical kinds first, then the line break, the two block markers and the end of the input. -/
inductive TokenKind where
  | keyword
  | name
  | number
  | string
  | operator
  | delimiter
  | lineBreak
  | blockOpen
  | blockDedent
  | endOfInput
  deriving DecidableEq, Repr

namespace TokenKind

/-- Every kind, in the order of their codes, the end of the input last. -/
def all : List TokenKind :=
  [keyword, name, number, string, operator, delimiter, lineBreak, blockOpen, blockDedent, endOfInput]

/-- The number a dump shows for the kind. -/
def code : TokenKind → Int
  | keyword => 1
  | name => 2
  | number => 3
  | string => 4
  | operator => 5
  | delimiter => 6
  | lineBreak => 7
  | blockOpen => 8
  | blockDedent => 9
  | endOfInput => -1

/-- The upper-case name, as messages and token displays show it. -/
def label : TokenKind → String
  | keyword => "KEYWORD"
  | name => "NAME"
  | number => "NUMBER"
  | string => "STRING"
  | operator => "OPERATOR"
  | delimiter => "DELIMITER"
  | lineBreak => "NEWLINE"
  | blockOpen => "INDENT"
  | blockDedent => "DEDENT"
  | endOfInput => "EOF"

/-- The name a JSON document uses for the kind. -/
def tag : TokenKind → String
  | keyword => "Keyword"
  | name => "Name"
  | number => "Number"
  | string => "Str"
  | operator => "Operator"
  | delimiter => "Delimiter"
  | lineBreak => "LineBreak"
  | blockOpen => "BlockOpen"
  | blockDedent => "BlockDedent"
  | endOfInput => "EndOfInput"

/-- The kind with a given JSON name. -/
def ofTag? (s : String) : Option TokenKind :=
  all.find? fun k => k.tag == s

/-- The markers that the tracker adds to a token sequence. -/
def isSynthetic : TokenKind → Bool
  | blockOpen | blockDedent => true
  | _ => false

/-- The kinds that can stand in a statement. -/
def isOrdinary : TokenKind → Bool
  | lineBreak | blockOpen | blockDedent | endOfInput => false
  | _ => true

theorem mem_all (k : TokenKind) : k ∈ all := by
  cases k <;> decide

theorem ofTag?_tag (k : TokenKind) : ofTag? k.tag = some k := by
  cases k <;> decide

theorem code_injective {j k : TokenKind} (h : j.code = k.code) : j = k := by
  cases j <;> cases k <;> first | rfl | cases h

end TokenKind

end LayoutRule
