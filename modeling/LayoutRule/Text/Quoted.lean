import LayoutRule.Text.Unprintable

/-! # Quoted text

A quoted text stands between double quotes, on one line, with every character that could be mistaken
spelled out: quotes and backslashes behind a backslash, the common controls by a letter, and any other
character without a glyph by its number. -/

namespace LayoutRule.Text

/-- The code point in lower-case hexadecimal between braces. -/
def escapeNumber (c : Char) : List Char :=
  ['\\', 'u', '\x7b'] ++ Nat.toDigits 16 c.toNat ++ ['\x7d']

/-- How one character is spelled inside a quoted text. -/
def escape (c : Char) : List Char :=
  match c with
  | '"' => ['\\', '"']
  | '\\' => ['\\', '\\']
  | '\n' => ['\\', 'n']
  | '\r' => ['\\', 'r']
  | '\t' => ['\\', 't']
  | '\x00' => ['\\', '0']
  | c => if isUnprintable c then escapeNumber c else [c]

/-- The quoted spelling of a list of characters. -/
def quote (cs : List Char) : List Char :=
  '"' :: (cs.flatMap escape ++ ['"'])

end LayoutRule.Text

namespace LayoutRule

/-- The quoted spelling of a text. -/
def quoted (s : String) : String :=
  String.ofList (Text.quote s.toList)

end LayoutRule
