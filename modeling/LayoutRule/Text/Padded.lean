/-! # Padding -/

namespace LayoutRule.Text

/-- Fills up with spaces on the right. -/
def padRight (width : Nat) (cs : List Char) : List Char :=
  cs ++ List.replicate (width - cs.length) ' '

/-- Fills up with spaces on the left. -/
def padLeft (width : Nat) (cs : List Char) : List Char :=
  List.replicate (width - cs.length) ' ' ++ cs

/-- An integer in decimal, flush right in three places. -/
def column3 (n : Int) : List Char :=
  padLeft 3 (toString n).toList

end LayoutRule.Text
