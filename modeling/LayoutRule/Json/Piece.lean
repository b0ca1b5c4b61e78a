import LayoutRule.Json.Basic
import LayoutRule.Number.Limits

/-! # Pieces of a JSON text

A JSON text is cut into brackets, braces, commas, colons and scalars, with white space between them. -/

namespace LayoutRule.Json

inductive Piece where
  | openArray
  | closeArray
  | openObject
  | closeObject
  | comma
  | colon
  | scalar (value : Json)
  deriving DecidableEq, Repr

def isSpace (c : Char) : Bool :=
  c = ' ' || c = '\t' || c = '\n' || c = '\r'

/-! ## Numbers -/

def digitValue (c : Char) : Nat := c.toNat - '0'.toNat

def digitsValue (cs : List Char) : Nat :=
  cs.foldl (fun n c => 10 * n + digitValue c) 0

/-- Reads digits as long as the number so far fits 64 bits. -/
def leadingValue (n : Nat) : List Char → Nat × List Char
  | [] => (n, [])
  | c :: cs =>
      let m := 10 * n + digitValue c
      if m < Number.wordLimit then leadingValue m cs else (n, c :: cs)

/-- Scales by a power of ten in steps of at most 308 places, each rounded to the nearest double. -/
def scaleByTen : Nat → Number.Finite64 → Int → Option Number.Finite64
  | 0, x, _ => some x
  | fuel + 1, x, e =>
      if e.natAbs ≤ 308 then do
        let power ← Number.Finite64.ofDecimal? false 1 e.natAbs
        if 0 ≤ e then x.mul? power else x.div? power
      else if x.mantissa = 0 then some x
      else if 0 ≤ e then none
      else do
        let power ← Number.Finite64.ofDecimal? false 1 308
        scaleByTen fuel (← x.div? power) (e + 308)

/-- The double that a number with a fraction, an exponent or too many digits stands for: a significand of
the leading digits, rounded, and then scaled. -/
def realValue? (negative : Bool) (whole fraction : List Char) (exponent : Int) : Option Number.Finite64 := do
  let (n, wholeLeft) := leadingValue 0 whole
  let (n, fractionLeft) := leadingValue n fraction
  let places : Int := wholeLeft.length - (fraction.length - fractionLeft.length)
  let significand ← Number.Finite64.ofQuotient? negative n 1
  scaleByTen 4 significand (places + exponent)

/-- An integer of at most 64 bits if the digits give one, a double otherwise. -/
def integerValue? (negative : Bool) (whole : List Char) : Option Json :=
  let n := digitsValue whole
  if negative then
    if 0 < n ∧ n ≤ Number.signedLimit then some (.integer (-(n : Int))) else (.real <| .finite ·) <$> realValue? true whole [] 0
  else if n < Number.wordLimit then some (.integer n)
  else (.real <| .finite ·) <$> realValue? false whole [] 0

/-- Splits off the digits in front, of which there must be at least one. -/
def digits? (cs : List Char) : Option (List Char × List Char) :=
  match cs.takeWhile Char.isDigit with
  | [] => none
  | ds => some (ds, cs.dropWhile Char.isDigit)

/-- The whole part has no zero in front of other digits. -/
def whole? : List Char → Option (List Char × List Char)
  | '0' :: cs => some (['0'], cs)
  | cs => digits? cs

/-- The digits behind a decimal point, or nothing if no point comes. -/
def fraction? : List Char → Option (Option (List Char) × List Char)
  | '.' :: cs => do
      let (ds, rest) ← digits? cs
      return (some ds, rest)
  | cs => some (none, cs)

/-- The signed number behind an exponent mark, or nothing if no mark comes. -/
def exponent? : List Char → Option (Option Int × List Char)
  | [] => some (none, [])
  | e :: cs =>
      if e = 'e' ∨ e = 'E' then do
        let (negative, cs) := match cs with
          | '-' :: cs => (true, cs)
          | '+' :: cs => (false, cs)
          | cs => (false, cs)
        let (ds, rest) ← digits? cs
        let n : Int := digitsValue ds
        return (some (if negative then -n else n), rest)
      else some (none, e :: cs)

/-- Reads a number off the front. -/
def number? (cs : List Char) : Option (Json × List Char) := do
  let (negative, cs) := match cs with
    | '-' :: cs => (true, cs)
    | cs => (false, cs)
  let (whole, cs) ← whole? cs
  let (fraction, cs) ← fraction? cs
  let (exponent, cs) ← exponent? cs
  let value ← match fraction, exponent with
    | none, none => integerValue? negative whole
    | f, e => (.real <| .finite ·) <$> realValue? negative whole (f.getD []) (e.getD 0)
  return (value, cs)

/-! ## Strings -/

def hexValue? (c : Char) : Option Nat :=
  if c.isDigit then some (digitValue c)
  else if 'a' ≤ c ∧ c ≤ 'f' then some (c.toNat - 'a'.toNat + 10)
  else if 'A' ≤ c ∧ c ≤ 'F' then some (c.toNat - 'A'.toNat + 10)
  else none

def hexValues? (cs : List Char) : Option Nat :=
  cs.foldlM (fun n c => (16 * n + ·) <$> hexValue? c) 0

/-- The character that a letter behind a backslash stands for. -/
def shortEscape? : Char → Option Char
  | '"' => some '"'
  | '\\' => some '\\'
  | '/' => some '/'
  | 'b' => some '\x08'
  | 'f' => some '\x0c'
  | 'n' => some '\n'
  | 'r' => some '\r'
  | 't' => some '\t'
  | _ => none

/-- Reads the code units and code points of a string up to its closing quote. -/
def stringUnits : List Char → Option (List Nat × List Char)
  | [] => none
  | '"' :: rest => some ([], rest)
  | '\\' :: 'u' :: a :: b :: c :: d :: rest => do
      let n ← hexValues? [a, b, c, d]
      let (ns, rest) ← stringUnits rest
      return (n :: ns, rest)
  | '\\' :: e :: rest => do
      let c ← shortEscape? e
      let (ns, rest) ← stringUnits rest
      return (c.toNat :: ns, rest)
  | c :: rest =>
      if c.toNat < 32 ∨ c = '\\' then none else do
        let (ns, rest) ← stringUnits rest
        return (c.toNat :: ns, rest)

def isHighSurrogate (n : Nat) : Bool := 0xd800 ≤ n && n < 0xdc00

def isLowSurrogate (n : Nat) : Bool := 0xdc00 ≤ n && n < 0xe000

/-- Joins each pair of surrogates to one character; a surrogate without its partner is refused. -/
def joinSurrogates : List Nat → Option (List Char)
  | [] => some []
  | n :: ns =>
      if isHighSurrogate n then
        match ns with
        | m :: rest =>
            if isLowSurrogate m then
              (Char.ofNat (0x10000 + (n - 0xd800) * 0x400 + (m - 0xdc00)) :: ·) <$> joinSurrogates rest
            else none
        | [] => none
      else if isLowSurrogate n then none
      else (Char.ofNat n :: ·) <$> joinSurrogates ns

/-- Reads a string whose opening quote is already gone. -/
def string? (cs : List Char) : Option (String × List Char) := do
  let (ns, rest) ← stringUnits cs
  return (String.ofList (← joinSurrogates ns), rest)

/-! ## Pieces -/

/-- Reads one piece off the front of a text that does not begin with a space. -/
def piece? : List Char → Option (Piece × List Char)
  | '[' :: cs => some (.openArray, cs)
  | ']' :: cs => some (.closeArray, cs)
  | '\x7b' :: cs => some (.openObject, cs)
  | '\x7d' :: cs => some (.closeObject, cs)
  | ',' :: cs => some (.comma, cs)
  | ':' :: cs => some (.colon, cs)
  | 'n' :: 'u' :: 'l' :: 'l' :: cs => some (.scalar .null, cs)
  | 't' :: 'r' :: 'u' :: 'e' :: cs => some (.scalar (.bool true), cs)
  | 'f' :: 'a' :: 'l' :: 's' :: 'e' :: cs => some (.scalar (.bool false), cs)
  | '"' :: cs => do
      let (s, rest) ← string? cs
      return (.scalar (.string s), rest)
  | cs => do
      let (j, rest) ← number? cs
      return (.scalar j, rest)

/-- Cuts a text into at most `fuel` pieces. -/
def piecesWithin : Nat → List Char → Option (List Piece)
  | 0, cs => if cs.all isSpace then some [] else none
  | fuel + 1, cs =>
      match cs.dropWhile isSpace with
      | [] => some []
      | c :: cs => do
          let (p, rest) ← piece? (c :: cs)
          return p :: (← piecesWithin fuel rest)

/-- Cuts a text into pieces; each has at least one character. -/
def pieces? (cs : List Char) : Option (List Piece) :=
  piecesWithin cs.length cs

end LayoutRule.Json
