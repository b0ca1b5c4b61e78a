import LayoutRule.Json.Basic
import LayoutRule.Number.Limits
import LayoutRule.Toml.Text

/-! # Unquoted TOML values

Truth values, numbers, dates and times. Dates and times are kept as their text in a fixed spelling. -/

namespace LayoutRule.Toml

def digitValue (c : Char) : Nat := c.toNat - '0'.toNat

def decimalValue (cs : List Char) : Nat :=
  cs.foldl (fun n c => 10 * n + digitValue c) 0

/-- The digits of a number, with single underscores between them taken out. -/
def digitRun? (isDigit : Char → Bool) : List Char → Option (List Char)
  | [] => none
  | [c] => if isDigit c then some [c] else none
  | c :: '_' :: cs => if isDigit c then (c :: ·) <$> digitRun? isDigit cs else none
  | c :: cs => if isDigit c then (c :: ·) <$> digitRun? isDigit cs else none

/-- Digits without a zero in front of others. -/
def plainDigits? (cs : List Char) : Option (List Char) :=
  match digitRun? Char.isDigit cs with
  | some ('0' :: _ :: _) => none
  | r => r

def splitSign : List Char → Bool × List Char
  | '-' :: cs => (true, cs)
  | '+' :: cs => (false, cs)
  | cs => (false, cs)

/-! ## Integers -/

/-- An integer of 64 bits. -/
def boundedInteger? (n : Int) : Option Json :=
  if Number.isSigned n then some (.integer n) else none

def radixValue? (radix : Nat) (cs : List Char) : Option Json := do
  let ds ← digitRun? (fun c => (hexValue? c).any (· < radix)) cs
  let n := ds.foldl (fun n c => radix * n + (hexValue? c).getD 0) 0
  boundedInteger? n

def integer? : List Char → Option Json
  | '0' :: 'x' :: cs => radixValue? 16 cs
  | '0' :: 'o' :: cs => radixValue? 8 cs
  | '0' :: 'b' :: cs => radixValue? 2 cs
  | cs => do
      let (negative, cs) := splitSign cs
      let n : Int := decimalValue (← plainDigits? cs)
      boundedInteger? (if negative then -n else n)

/-! ## Floats -/

/-- Splits at the first character that fits; the character itself is dropped. -/
def splitAtFirst (p : Char → Bool) (cs : List Char) : List Char × Option (List Char) :=
  match cs.dropWhile (!p ·) with
  | [] => (cs, none)
  | _ :: behind => (cs.takeWhile (!p ·), some behind)

/-- The exponent behind its mark; zeros may stand in front. -/
def exponentValue? (cs : List Char) : Option Int := do
  let (negative, cs) := splitSign cs
  let n : Int := decimalValue (← digitRun? Char.isDigit cs)
  return if negative then -n else n

/-- A number with a fraction, an exponent or both; one too large for a double is refused. -/
def float? (cs : List Char) : Option Json := do
  let (negative, cs) := splitSign cs
  match cs with
  | ['i', 'n', 'f'] => return .real (.infinite negative)
  | ['n', 'a', 'n'] => return .real .undefined
  | _ =>
      let (body, mark) := splitAtFirst (fun c => c = 'e' || c = 'E') cs
      let (whole, point) := splitAtFirst (· = '.') body
      if mark.isNone ∧ point.isNone then none else
        let whole ← plainDigits? whole
        let fraction ← point.elim (some []) (digitRun? Char.isDigit)
        let exponent ← mark.elim (some 0) exponentValue?
        let x ← Number.Finite64.ofDecimal? negative (decimalValue (whole ++ fraction)) (exponent - fraction.length)
        return .real (.finite x)

/-! ## Dates and times -/

/-- The value of two digits, if it lies in the given range. -/
def twoDigits? (low high : Nat) (a b : Char) : Option Nat :=
  let n := 10 * digitValue a + digitValue b
  if a.isDigit ∧ b.isDigit ∧ low ≤ n ∧ n ≤ high then some n else none

def isLeapYear (year : Nat) : Bool :=
  year % 4 = 0 && (year % 100 ≠ 0 || year % 400 = 0)

def daysInMonth (year month : Nat) : Nat :=
  if month = 2 then (if isLeapYear year then 29 else 28)
  else if month ∈ [4, 6, 9, 11] then 30
  else 31

/-- A date off the front. -/
def date? : List Char → Option (List Char × List Char)
  | a :: b :: c :: d :: '-' :: e :: f :: '-' :: g :: h :: rest => do
      if [a, b, c, d].all Char.isDigit then
        let year := decimalValue [a, b, c, d]
        let month ← twoDigits? 1 12 e f
        let _ ← twoDigits? 1 (daysInMonth year month) g h
        return ([a, b, c, d, '-', e, f, '-', g, h], rest)
      else none
  | _ => none

/-- The fraction of a second to nine places, without zeros at its end. -/
def secondFraction (ds : List Char) : List Char :=
  match ((ds.take 9).reverse.dropWhile (· = '0')).reverse with
  | [] => []
  | kept => '.' :: kept

/-- A time off the front. -/
def time? : List Char → Option (List Char × List Char)
  | a :: b :: ':' :: c :: d :: ':' :: e :: f :: rest => do
      let _ ← twoDigits? 0 23 a b
      let _ ← twoDigits? 0 59 c d
      let _ ← twoDigits? 0 60 e f
      let seconds := [a, b, ':', c, d, ':', e, f]
      match rest with
      | '.' :: more =>
          match more.takeWhile Char.isDigit with
          | [] => none
          | ds => return (seconds ++ secondFraction ds, more.dropWhile Char.isDigit)
      | _ => return (seconds, rest)
  | _ => none

/-- What stands behind a time: nothing, or the distance from universal time. An empty distance is
positive. -/
def timeOffset? : List Char → Option (List Char)
  | [] => some []
  | ['Z'] | ['z'] => some ['Z']
  | [sign, a, b, ':', c, d] => do
      let hours ← twoDigits? 0 23 a b
      let minutes ← twoDigits? 0 59 c d
      if sign = '+' ∨ (sign = '-' ∧ hours + minutes = 0) then some ['+', a, b, ':', c, d]
      else if sign = '-' then some ['-', a, b, ':', c, d]
      else none
  | _ => none

/-- A date, a time, or both with a mark between them. -/
def moment? (cs : List Char) : Option Json :=
  match date? cs with
  | some (date, []) => some (.string (String.ofList date))
  | some (date, mark :: rest) =>
      if mark = 'T' ∨ mark = 't' ∨ mark = ' ' then do
        let (time, rest) ← time? rest
        return .string (String.ofList (date ++ 'T' :: time ++ (← timeOffset? rest)))
      else none
  | none =>
      match time? cs with
      | some (time, []) => some (.string (String.ofList time))
      | _ => none

/-! ## Values -/

def isScalarChar (c : Char) : Bool :=
  c.isAlphanum || c = '_' || c = '+' || c = '-' || c = '.' || c = ':'

/-- The characters of an unquoted value; a date and a time may be joined by a space. -/
def scalarRun (cs : List Char) : List Char × List Char :=
  let run := cs.takeWhile isScalarChar
  match cs.dropWhile isScalarChar with
  | ' ' :: d :: rest =>
      if (date? run).any (·.2.isEmpty) ∧ d.isDigit then
        (run ++ ' ' :: (d :: rest).takeWhile isScalarChar, (d :: rest).dropWhile isScalarChar)
      else (run, ' ' :: d :: rest)
  | rest => (run, rest)

/-- The value that an unquoted run of characters stands for. -/
def scalar? (run : List Char) : Option Json :=
  match run with
  | ['t', 'r', 'u', 'e'] => some (.bool true)
  | ['f', 'a', 'l', 's', 'e'] => some (.bool false)
  | _ => (moment? run).orElse fun _ => (integer? run).orElse fun _ => float? run

end LayoutRule.Toml
