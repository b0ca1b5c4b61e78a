import LayoutRule.Number.Binary64

/-! # Shortest decimal text of a double

The digits are the fewest that read back as the same double, and of those the nearest. The notation says
which of two equally near decimals is taken, and when the digits are written positionally and when with an
exponent. -/

namespace LayoutRule.Number

/-- A decimal `digits * 10 ^ exponent`. -/
structure Decimal where
  digits : Nat
  exponent : Int
  deriving DecidableEq, Repr

/-- Which neighbour is taken for a value halfway between two decimals. -/
inductive Tie where
  | toEven
  | up
  deriving DecidableEq, Repr

/-- The natural nearest to `num / den`. -/
def Tie.nearest (tie : Tie) (num den : Nat) : Nat :=
  match tie with
  | toEven => roundQuotient num den
  | up => (2 * num + den) / (2 * den)

namespace Finite64

/-- The power of ten below which `count` digits of the magnitude lie, found from an upper guess. -/
def decimalExponent (x : Finite64) (count : Nat) : Nat → Int → Int
  | 0, k => k
  | fuel + 1, k =>
      let (n, d) := x.quotient
      let (p, q) := decimalQuotient 1 k
      if n * q / (d * p) < tenTo (count - 1) then x.decimalExponent count fuel (k - 1) else k

/-- The nearer of the two neighbours with `count` digits that reads back, if either does. -/
def digitsAt? (tie : Tie) (x : Finite64) (count : Nat) : Option Decimal :=
  let guess : Int := (x.exponent + 54) * 3 / 10 + 4 - count
  let k := x.decimalExponent count 800 guess
  let (n, d) := x.quotient
  let (p, q) := decimalQuotient 1 k
  let low := n * q / (d * p)
  let nearest := tie.nearest (n * q) (d * p)
  let other := if nearest = low then low + 1 else low
  [nearest, other].findSome? fun c =>
    if ofDecimal? x.negative c k = some x then some ⟨c, k⟩ else none

/-- The fewest digits that read back, seventeen at most. -/
def shortest (tie : Tie) (x : Finite64) : Decimal :=
  if x.mantissa = 0 then ⟨0, 0⟩ else
    ((List.range 17).findSome? fun i => x.digitsAt? tie (i + 1)).getD ⟨0, 0⟩

end Finite64

/-- How a double is written: what becomes of a tie, and the places of the decimal point, counted from the
first digit, that are written positionally. -/
structure Notation where
  tie : Tie
  above : Option Int
  upTo : Option Int
  deriving DecidableEq, Repr

/-- Every value is written positionally, and a tie goes up. -/
def Notation.positional : Notation := ⟨.up, none, none⟩

/-- Values from 0.00001 on and below 10 ^ 16 are written positionally, others with an exponent, and a tie
goes to the even digit. -/
def Notation.compact : Notation := ⟨.toEven, some (-5), some 16⟩

/-- Whether a decimal point at this place is written positionally. -/
def Notation.admits (style : Notation) (point : Int) : Bool :=
  style.above.all (· < point) && style.upTo.all (point ≤ ·)

/-- Digits without trailing zeros, and the power of ten that they are counted in. -/
def Decimal.trim : Nat → Decimal → Decimal
  | 0, x => x
  | fuel + 1, x =>
      if x.digits ≠ 0 ∧ x.digits % 10 = 0 then Decimal.trim fuel ⟨x.digits / 10, x.exponent + 1⟩ else x

/-- The decimal point is always shown, with a zero behind it if nothing else is there. -/
def Decimal.positionalText (digits : List Char) (exponent : Int) : List Char :=
  let point : Int := digits.length + exponent
  if 0 ≤ exponent then digits ++ List.replicate exponent.toNat '0' ++ ['.', '0']
  else if 0 < point then digits.take point.toNat ++ ['.'] ++ digits.drop point.toNat
  else ['0', '.'] ++ List.replicate (-point).toNat '0' ++ digits

/-- One digit before the point, no point behind a single digit, and an exponent that always has its sign. -/
def Decimal.scientificText (digits : List Char) (exponent : Int) : List Char :=
  let power : Int := digits.length + exponent - 1
  let tail := ['e', if power < 0 then '-' else '+'] ++ (toString power.natAbs).toList
  match digits with
  | [d] => d :: tail
  | ds => ds.take 1 ++ ['.'] ++ ds.drop 1 ++ tail

/-- The shortest text of a double in the given notation. -/
def Finite64.text (style : Notation) (x : Finite64) : String :=
  let sign := if x.negative then ['-'] else []
  let body :=
    if x.mantissa = 0 then ['0', '.', '0'] else
      let s := Decimal.trim 20 (x.shortest style.tie)
      let digits := (toString s.digits).toList
      if style.admits (digits.length + s.exponent) then Decimal.positionalText digits s.exponent
      else Decimal.scientificText digits s.exponent
  String.ofList (sign ++ body)

def Binary64.text (style : Notation) : Binary64 → String
  | finite x => x.text style
  | infinite negative => if negative then "-inf" else "inf"
  | undefined => "NaN"

end LayoutRule.Number
