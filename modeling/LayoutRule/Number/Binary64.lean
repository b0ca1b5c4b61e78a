/-! # Double precision by exact arithmetic

A finite double is a signed `mantissa * 2 ^ exponent`. Rounding a quotient of naturals goes to the nearest
double, a tie to the even mantissa. -/

namespace LayoutRule.Number

/-- A double that is a number. -/
structure Finite64 where
  negative : Bool
  mantissa : Nat
  exponent : Int
  deriving DecidableEq, Repr

/-- A double, infinite ones and the undefined one included. -/
inductive Binary64 where
  | finite (value : Finite64)
  | infinite (negative : Bool)
  | undefined
  deriving DecidableEq, Repr

def twoTo (n : Nat) : Nat := Nat.pow 2 n

def tenTo (n : Nat) : Nat := Nat.pow 10 n

/-- The natural nearest to `num / den`, a tie going to the even one. -/
def roundQuotient (num den : Nat) : Nat :=
  let q := num / den
  let r := num % den
  if den < 2 * r ∨ (2 * r = den ∧ q % 2 = 1) then q + 1 else q

/-- The two sides of `num / (den * 2 ^ e)` as naturals. -/
def scaleByTwo (num den : Nat) (e : Int) : Nat × Nat :=
  if 0 ≤ e then (num, den * twoTo e.toNat) else (num * twoTo (-e).toNat, den)

/-- The exponent at which `num / den` has 53 binary digits, or the least exponent of all. -/
def binaryExponent (num den : Nat) : Int :=
  let guess : Int := (num.log2 : Int) - (den.log2 : Int) - 52
  let (n, d) := scaleByTwo num den guess
  max (if n / d < twoTo 52 then guess - 1 else guess) (-1074)

/-- The two sides of `digits * 10 ^ exponent` as a quotient of naturals. -/
def decimalQuotient (digits : Nat) (exponent : Int) : Nat × Nat :=
  if 0 ≤ exponent then (digits * tenTo exponent.toNat, 1) else (digits, tenTo (-exponent).toNat)

namespace Finite64

/-- The double nearest to `num / den`, or nothing when it is too large. -/
def ofQuotient? (negative : Bool) (num den : Nat) : Option Finite64 :=
  if num = 0 then some ⟨negative, 0, -1074⟩ else
    let e := binaryExponent num den
    let (n, d) := scaleByTwo num den e
    let m := roundQuotient n d
    let (m, e) := if m = twoTo 53 then (twoTo 52, e + 1) else (m, e)
    if 971 < e then none else some ⟨negative, m, e⟩

/-- The double nearest to `digits * 10 ^ exponent`. Beyond 400 places either way the answer is known
without the power. -/
def ofDecimal? (negative : Bool) (digits : Nat) (exponent : Int) : Option Finite64 :=
  if digits = 0 ∨ exponent + Nat.log2 digits < -1500 then some ⟨negative, 0, -1074⟩
  else if 400 < exponent then none
  else
    let (n, d) := decimalQuotient digits exponent
    ofQuotient? negative n d

/-- The magnitude as a quotient of naturals. -/
def quotient (x : Finite64) : Nat × Nat :=
  if 0 ≤ x.exponent then (x.mantissa * twoTo x.exponent.toNat, 1) else (x.mantissa, twoTo (-x.exponent).toNat)

/-- Product of the magnitudes, rounded once, with the sign of the first. -/
def mul? (x y : Finite64) : Option Finite64 :=
  ofQuotient? x.negative (x.quotient.1 * y.quotient.1) (x.quotient.2 * y.quotient.2)

/-- Quotient of the magnitudes, rounded once, with the sign of the first. -/
def div? (x y : Finite64) : Option Finite64 :=
  ofQuotient? x.negative (x.quotient.1 * y.quotient.2) (x.quotient.2 * y.quotient.1)

end Finite64

end LayoutRule.Number
