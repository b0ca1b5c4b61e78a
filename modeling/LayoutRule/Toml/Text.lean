/-! # Words of a TOML text

Blanks, comments, line ends, quoted strings and keys. -/

namespace LayoutRule.Toml

def isBlank (c : Char) : Bool :=
  c = ' ' || c = '\t'

/-- Characters that may stand in a comment or a quoted string: no control but the tab. -/
def isText (c : Char) : Bool :=
  c = '\t' || (32 ≤ c.toNat && c.toNat != 127)

def skipBlanks (cs : List Char) : List Char :=
  cs.dropWhile isBlank

/-- Skips a comment, if one stands here, up to the end of its line or the first control. -/
def skipComment : List Char → List Char
  | '#' :: cs => cs.dropWhile isText
  | cs => cs

/-- What is left behind a line feed, alone or after a carriage return. -/
def lineEnd? : List Char → Option (List Char)
  | '\n' :: cs => some cs
  | '\r' :: '\n' :: cs => some cs
  | _ => none

/-- Skips blanks, comments and line ends, `fuel` lines at most. -/
def skipLines : Nat → List Char → List Char
  | 0, cs => cs
  | fuel + 1, cs =>
      let cs := skipComment (skipBlanks cs)
      match lineEnd? cs with
      | some rest => skipLines fuel rest
      | none => cs

/-! ## Strings -/

def hexValue? (c : Char) : Option Nat :=
  if c.isDigit then some (c.toNat - '0'.toNat)
  else if 'a' ≤ c ∧ c ≤ 'f' then some (c.toNat - 'a'.toNat + 10)
  else if 'A' ≤ c ∧ c ≤ 'F' then some (c.toNat - 'A'.toNat + 10)
  else none

/-- The character with the given hexadecimal code point, which must not be a surrogate. -/
def charOfHex? (cs : List Char) : Option Char := do
  let n ← cs.foldlM (fun n c => (16 * n + ·) <$> hexValue? c) 0
  if n.isValidChar then some (Char.ofNat n) else none

/-- The character that a letter behind a backslash stands for. -/
def shortEscape? : Char → Option Char
  | 'b' => some '\x08'
  | 't' => some '\t'
  | 'n' => some '\n'
  | 'f' => some '\x0c'
  | 'r' => some '\r'
  | '"' => some '"'
  | '\\' => some '\\'
  | _ => none

def consTo (c : Char) (r : Option (List Char × List Char)) : Option (List Char × List Char) :=
  r.map fun (cs, rest) => (c :: cs, rest)

/-- The contents of a string between double quotes, from behind the opening one. -/
def basicString : List Char → Option (List Char × List Char)
  | [] => none
  | '"' :: rest => some ([], rest)
  | '\\' :: 'u' :: a :: b :: c :: d :: rest => do
      consTo (← charOfHex? [a, b, c, d]) (basicString rest)
  | '\\' :: 'U' :: a :: b :: c :: d :: e :: f :: g :: h :: rest => do
      consTo (← charOfHex? [a, b, c, d, e, f, g, h]) (basicString rest)
  | '\\' :: e :: rest => do
      consTo (← shortEscape? e) (basicString rest)
  | c :: rest => if isText c ∧ c ≠ '\\' then consTo c (basicString rest) else none

/-- The contents of a string between triple double quotes. One or two quotes may stand before the closing
ones. A backslash at the end of a line takes the white space behind it away; `joining` says that this is
going on. -/
def basicBlock (joining : Bool) : List Char → Option (List Char × List Char)
  | [] => none
  | '"' :: '"' :: '"' :: '"' :: '"' :: rest => some (['"', '"'], rest)
  | '"' :: '"' :: '"' :: '"' :: rest => some (['"'], rest)
  | '"' :: '"' :: '"' :: rest => some ([], rest)
  | '\r' :: '\n' :: rest => if joining then basicBlock true rest else consTo '\n' (basicBlock false rest)
  | '\\' :: 'u' :: a :: b :: c :: d :: rest => do
      consTo (← charOfHex? [a, b, c, d]) (basicBlock false rest)
  | '\\' :: 'U' :: a :: b :: c :: d :: e :: f :: g :: h :: rest => do
      consTo (← charOfHex? [a, b, c, d, e, f, g, h]) (basicBlock false rest)
  | '\\' :: e :: rest =>
      if (lineEnd? (skipBlanks (e :: rest))).isSome then
        if e = '\n' ∨ e = '\r' ∨ isBlank e then basicBlock true rest else none
      else do
        consTo (← shortEscape? e) (basicBlock false rest)
  | c :: rest =>
      if joining ∧ (isBlank c ∨ c = '\n') then basicBlock true rest
      else if c = '\n' ∨ (isText c ∧ c ≠ '\\') then consTo c (basicBlock false rest)
      else none

/-- The contents of a string between single quotes, from behind the opening one. -/
def literalString : List Char → Option (List Char × List Char)
  | [] => none
  | '\'' :: rest => some ([], rest)
  | c :: rest => if isText c then consTo c (literalString rest) else none

/-- The contents of a string between triple single quotes. -/
def literalBlock : List Char → Option (List Char × List Char)
  | [] => none
  | '\'' :: '\'' :: '\'' :: '\'' :: '\'' :: rest => some (['\'', '\''], rest)
  | '\'' :: '\'' :: '\'' :: '\'' :: rest => some (['\''], rest)
  | '\'' :: '\'' :: '\'' :: rest => some ([], rest)
  | '\r' :: '\n' :: rest => consTo '\n' (literalBlock rest)
  | c :: rest => if c = '\n' ∨ isText c then consTo c (literalBlock rest) else none

/-- Drops a line end right behind the opening quotes of a block. -/
def dropFirstLineEnd (cs : List Char) : List Char :=
  (lineEnd? cs).getD cs

/-- A string in any of its four forms. -/
def string? : List Char → Option (List Char × List Char)
  | '"' :: '"' :: '"' :: cs => basicBlock false (dropFirstLineEnd cs)
  | '"' :: cs => basicString cs
  | '\'' :: '\'' :: '\'' :: cs => literalBlock (dropFirstLineEnd cs)
  | '\'' :: cs => literalString cs
  | _ => none

/-! ## Keys -/

def isBareKey (c : Char) : Bool :=
  c.isAlphanum || c = '_' || c = '-'

/-- One part of a key: bare, or a string on one line. -/
def keyPart? (cs : List Char) : Option (String × List Char) :=
  match cs with
  | '"' :: rest => (basicString rest).map fun (k, rest) => (String.ofList k, rest)
  | '\'' :: rest => (literalString rest).map fun (k, rest) => (String.ofList k, rest)
  | _ =>
      match cs.takeWhile isBareKey with
      | [] => none
      | k => some (String.ofList k, cs.dropWhile isBareKey)

/-- A key of several parts: those before the last, and the last. -/
structure Key where
  outer : List String
  last : String
  deriving DecidableEq, Repr

/-- Reads the parts of a key, with points between them and blanks around the points. -/
def keyWithin : Nat → List Char → Option (Key × List Char)
  | 0, _ => none
  | fuel + 1, cs => do
      let (part, rest) ← keyPart? (skipBlanks cs)
      match skipBlanks rest with
      | '.' :: more =>
          let (key, rest) ← keyWithin fuel more
          return (⟨part :: key.outer, key.last⟩, rest)
      | rest => return (⟨[], part⟩, rest)

/-- The most parts a key may have. -/
def keyLimit : Nat := 79

def key? (cs : List Char) : Option (Key × List Char) :=
  keyWithin keyLimit cs

end LayoutRule.Toml
