import LayoutRule.Json.Basic
import LayoutRule.Number.Shortest

/-! # JSON texts

The compact text has no space at all. The pretty text puts each item and each field on a line of its own,
two spaces deeper than its container; an empty container stays on one line. -/

namespace LayoutRule.Json

/-- The four hexadecimal digits of a code unit, in lower case. -/
def unitDigits (n : Nat) : List Char :=
  [n / 4096 % 16, n / 256 % 16, n / 16 % 16, n % 16].map Nat.digitChar

/-- How one character is spelled inside a string: only quotes, backslashes and controls are escaped. -/
def escape (c : Char) : List Char :=
  match c with
  | '"' => ['\\', '"']
  | '\\' => ['\\', '\\']
  | '\x08' => ['\\', 'b']
  | '\x0c' => ['\\', 'f']
  | '\n' => ['\\', 'n']
  | '\r' => ['\\', 'r']
  | '\t' => ['\\', 't']
  | c => if c.toNat < 32 then '\\' :: 'u' :: unitDigits c.toNat else [c]

def stringText (s : String) : List Char :=
  '"' :: (s.toList.flatMap escape ++ ['"'])

def integerText (n : Int) : List Char :=
  (toString n).toList

/-- A double has no text of its own unless it is a number. -/
def realText : Number.Binary64 → List Char
  | .finite x => (x.text .compact).toList
  | _ => ['n', 'u', 'l', 'l']

mutual

/-- The text of a value without spaces. -/
def compact : Json → List Char
  | .null => ['n', 'u', 'l', 'l']
  | .bool true => ['t', 'r', 'u', 'e']
  | .bool false => ['f', 'a', 'l', 's', 'e']
  | .integer n => integerText n
  | .real x => realText x
  | .string s => stringText s
  | .array [] => ['[', ']']
  | .array (j :: js) => '[' :: (compact j ++ compactItems js)
  | .object [] => ['\x7b', '\x7d']
  | .object ((k, j) :: fs) => '\x7b' :: (stringText k ++ ':' :: (compact j ++ compactFields fs))

/-- The later items, each behind a comma, and the closing bracket. -/
def compactItems : List Json → List Char
  | [] => [']']
  | j :: js => ',' :: (compact j ++ compactItems js)

/-- The later fields, each behind a comma, and the closing brace. -/
def compactFields : List (String × Json) → List Char
  | [] => ['\x7d']
  | (k, j) :: fs => ',' :: (stringText k ++ ':' :: (compact j ++ compactFields fs))

end

/-- A new line at the given depth. -/
def newLine (depth : Nat) : List Char :=
  '\n' :: List.replicate (2 * depth) ' '

mutual

/-- The text of a value on lines of its own, in a container at the given depth. -/
def pretty (depth : Nat) : Json → List Char
  | .null => ['n', 'u', 'l', 'l']
  | .bool true => ['t', 'r', 'u', 'e']
  | .bool false => ['f', 'a', 'l', 's', 'e']
  | .integer n => integerText n
  | .real x => realText x
  | .string s => stringText s
  | .array [] => ['[', ']']
  | .array (j :: js) => '[' :: (newLine (depth + 1) ++ pretty (depth + 1) j ++ prettyItems depth js)
  | .object [] => ['\x7b', '\x7d']
  | .object ((k, j) :: fs) =>
      '\x7b' :: (newLine (depth + 1) ++ stringText k ++ [':', ' '] ++ pretty (depth + 1) j ++
        prettyFields depth fs)

/-- The later items, and the closing bracket back at the depth of the container. -/
def prettyItems (depth : Nat) : List Json → List Char
  | [] => newLine depth ++ [']']
  | j :: js => ',' :: (newLine (depth + 1) ++ pretty (depth + 1) j ++ prettyItems depth js)

/-- The later fields, and the closing brace back at the depth of the container. -/
def prettyFields (depth : Nat) : List (String × Json) → List Char
  | [] => newLine depth ++ ['\x7d']
  | (k, j) :: fs =>
      ',' :: (newLine (depth + 1) ++ stringText k ++ [':', ' '] ++ pretty (depth + 1) j ++
        prettyFields depth fs)

end

def compactText (j : Json) : String :=
  String.ofList (compact j)

def prettyText (j : Json) : String :=
  String.ofList (pretty 0 j)

end LayoutRule.Json
