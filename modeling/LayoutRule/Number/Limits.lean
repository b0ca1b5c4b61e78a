/-! # Limits of integers in documents -/

namespace LayoutRule.Number

/-- The number of values of 64 bits. -/
def wordLimit : Nat := 18446744073709551616

/-- Half of that: a signed integer lies below it and not below its negative. -/
def signedLimit : Nat := 9223372036854775808

/-- Whether an integer fits 64 bits with a sign. -/
def isSigned (n : Int) : Bool :=
  -(signedLimit : Int) ≤ n && n < signedLimit

end LayoutRule.Number
