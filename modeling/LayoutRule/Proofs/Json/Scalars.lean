import LayoutRule.Json.Printer
import LayoutRule.Json.Reader
import LayoutRule.Proofs.Text.Parts

/-! # Scalars read back

A string and an integer are read back from their texts, whatever stands behind a string, and whatever does not go on
with a number behind an integer. -/

namespace LayoutRule.Json

/-! ### Strings -/

/-- A character is no surrogate. -/
theorem joinSurrogates_map_toNat (cs : List Char) : joinSurrogates (cs.map Char.toNat) = some cs := by
  induction cs with
  | nil => rfl
  | cons c cs ih =>
      have hvalid : c.toNat < 0xd800 ∨ 0xdfff < c.toNat ∧ c.toNat < 0x110000 := c.valid
      have hhigh : isHighSurrogate c.toNat = false := by
        simp only [isHighSurrogate, Bool.and_eq_false_iff, decide_eq_false_iff_not]
        omega
      have hlow : isLowSurrogate c.toNat = false := by
        simp only [isLowSurrogate, Bool.and_eq_false_iff, decide_eq_false_iff_not]
        omega
      rw [List.map_cons, joinSurrogates.eq_def]
      simp [hhigh, hlow, ih, Char.ofNat_toNat]

theorem hexValues?_unitDigits {n : ℕ} (h : n < 32) : hexValues? (unitDigits n) = some n := by
  have hall : ∀ n < 32, hexValues? (unitDigits n) = some n := by decide
  exact hall n h

theorem stringUnits_escape (c : Char) {cs behind : List Char} {ns : List ℕ} (h : stringUnits cs = some (ns, behind)) :
    stringUnits (escape c ++ cs) = some (c.toNat :: ns, behind) := by
  unfold escape
  split
  case h_8 hquote hbackslash _ _ _ _ _ =>
    split
    case isTrue hcontrol =>
      have hunit := hexValues?_unitDigits hcontrol
      simp only [unitDigits, List.map_cons, List.map_nil] at hunit
      simp [stringUnits, unitDigits, hunit, h]
    case isFalse hplain =>
      have hplain : ¬(c.toNat < 32 ∨ c = '\\') := not_or.mpr ⟨hplain, hbackslash⟩
      rw [List.singleton_append, stringUnits.eq_5 c cs hquote (fun _ _ _ _ _ heq => absurd heq hbackslash)
        (fun _ _ heq => absurd heq hbackslash), if_neg hplain, h]
      rfl
  all_goals simp [stringUnits, shortEscape?, h]

theorem stringUnits_spelled (cs behind : List Char) :
    stringUnits (cs.flatMap escape ++ '"' :: behind) = some (cs.map Char.toNat, behind) := by
  induction cs with
  | nil => rfl
  | cons c cs ih =>
      rw [List.flatMap_cons, List.append_assoc, List.map_cons]
      exact stringUnits_escape c ih

/-- A string is read back up to its closing quote. -/
theorem string?_stringText (s : String) (behind : List Char) :
    string? ((stringText s ++ behind).tail) = some (s, behind) := by
  simp [string?, stringText, stringUnits_spelled, joinSurrogates_map_toNat]

/-! ### Integers -/

/-- The characters that a number goes on with. -/
def isNumberChar (c : Char) : Bool := Text.isNumeral c || c = '.' || c = 'e' || c = 'E'

/-- The integers that are read as integers, those of at most 64 bits. -/
def Fits (n : ℤ) : Prop := -(Number.signedLimit : ℤ) ≤ n ∧ n < Number.wordLimit

theorem digitsValue_toDigits (n : ℕ) : digitsValue (Nat.toDigits 10 n) = n := Nat.ofDigitChars_ten_toDigits

/-- No zero stands in front of other digits. -/
theorem head?_toDigits_ne {n : ℕ} (h : n ≠ 0) : (Nat.toDigits 10 n).head? ≠ some '0' := by
  induction n using Nat.strong_induction_on with
  | _ n ih =>
      rw [Nat.toDigits_eq_if (by decide)]
      split
      case isTrue hn =>
        have hall : ∀ n < 10, n ≠ 0 → [Nat.digitChar n].head? ≠ some '0' := by decide
        exact hall n hn h
      case isFalse hn =>
        have hfront : n / 10 ≠ 0 := by omega
        obtain ⟨c, cs, hcs⟩ := List.exists_cons_of_ne_nil (Nat.toDigits_ne_nil (b := 10) (n := n / 10))
        have hhead := ih (n / 10) (by omega) hfront
        rw [hcs] at hhead ⊢
        simpa using hhead

section Behind

variable {behind : List Char} (hbehind : ∀ c ∈ behind.head?, isNumberChar c = false)

include hbehind

theorem digits?_toDigits (n : ℕ) : digits? (Nat.toDigits 10 n ++ behind) = some (Nat.toDigits 10 n, behind) := by
  have hdigit : ∀ c ∈ behind.head?, c.isDigit = false := by
    intro c hc
    have hc := hbehind c hc
    simp only [isNumberChar, Text.isNumeral, Bool.or_eq_false_iff] at hc
    exact hc.1.1.1.2
  obtain ⟨c, cs, hcs⟩ := List.exists_cons_of_ne_nil (Nat.toDigits_ne_nil (b := 10) (n := n))
  have hall : ∀ c ∈ Nat.toDigits 10 n, c.isDigit = true := Text.isDigit_of_mem_toDigits
  have htake : (Nat.toDigits 10 n ++ behind).takeWhile Char.isDigit = Nat.toDigits 10 n := by
    rw [Text.takeWhile_append_of_head hdigit, List.takeWhile_eq_self_iff.mpr hall]
  have hdrop : (Nat.toDigits 10 n ++ behind).dropWhile Char.isDigit = behind := by
    rw [Text.dropWhile_append_of_head hdigit, List.dropWhile_eq_nil_iff.mpr hall, List.nil_append]
  rw [digits?, htake, hdrop, hcs]

theorem whole?_toDigits (n : ℕ) : whole? (Nat.toDigits 10 n ++ behind) = some (Nat.toDigits 10 n, behind) := by
  by_cases hn : n = 0
  · subst hn
    rfl
  · obtain ⟨c, cs, hcs⟩ := List.exists_cons_of_ne_nil (Nat.toDigits_ne_nil (b := 10) (n := n))
    have hzero : c ≠ '0' := by simpa [hcs] using head?_toDigits_ne hn
    rw [← digits?_toDigits hbehind, hcs, List.cons_append, whole?]
    simpa using hzero

theorem fraction?_behind : fraction? behind = some (none, behind) := by
  cases behind with
  | nil => rfl
  | cons c behind =>
      have hc : c ≠ '.' := by
        rintro rfl
        cases hbehind '.' rfl
      rw [fraction?]
      simpa using hc

theorem exponent?_behind : exponent? behind = some (none, behind) := by
  cases behind with
  | nil => rfl
  | cons c behind =>
      have hc := hbehind c rfl
      simp only [isNumberChar, Bool.or_eq_false_iff, decide_eq_false_iff_not] at hc
      rw [exponent?.eq_def]
      exact if_neg (not_or.mpr ⟨hc.1.2, hc.2⟩)

/-- An integer is read back up to where its digits end. -/
theorem number?_integerText {n : ℤ} (h : Fits n) : number? (integerText n ++ behind) = some (.integer n, behind) := by
  obtain ⟨hlow, hhigh⟩ := h
  cases n with
  | ofNat n =>
      have hlt : n < Number.wordLimit := Int.ofNat_lt.mp hhigh
      obtain ⟨c, cs, hcs⟩ := List.exists_cons_of_ne_nil (Nat.toDigits_ne_nil (b := 10) (n := n))
      have hsign : c ≠ '-' := by
        rintro rfl
        cases Text.isDigit_of_mem_toDigits '-' (hcs ▸ List.mem_cons_self)
      have hwhole := whole?_toDigits hbehind n
      have hvalue := digitsValue_toDigits n
      rw [integerText, Text.toList_toString_ofNat]
      rw [hcs] at hvalue
      rw [hcs, List.cons_append] at hwhole ⊢
      simp [number?, hsign, hwhole, fraction?_behind hbehind, exponent?_behind hbehind, integerValue?, hvalue, hlt]
  | negSucc n =>
      have hle : n + 1 ≤ Number.signedLimit := by omega
      rw [integerText, Text.toList_toString_negSucc, List.cons_append]
      simp [number?, whole?_toDigits hbehind, fraction?_behind hbehind, exponent?_behind hbehind, integerValue?,
        digitsValue_toDigits, hle, Int.negSucc_eq]

end Behind

end LayoutRule.Json
