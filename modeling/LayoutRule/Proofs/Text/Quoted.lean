import LayoutRule.Text.Quoted
import LayoutRule.Proofs.Text.Parts
import Mathlib.Data.Nat.Init

/-! # Quoted texts

A quoted text stands on one line, and where it ends can be seen whatever stands behind it: no character is spelled
like the front of another, and none like the closing quote. -/

namespace LayoutRule.Text

/-! ### Hexadecimal numbers -/

theorem toDigits_sixteen (n : ℕ) : Nat.toDigits 16 n =
    if n < 16 then [Nat.digitChar n] else Nat.toDigits 16 (n / 16) ++ [Nat.digitChar (n % 16)] :=
  Nat.toDigits_eq_if (by decide)

theorem digitChar_injective {m n : ℕ} (hm : m < 16) (hn : n < 16) (h : Nat.digitChar m = Nat.digitChar n) : m = n := by
  have hall : ∀ m < 16, ∀ n < 16, Nat.digitChar m = Nat.digitChar n → m = n := by decide
  exact hall m hm n hn h

theorem toDigits_sixteen_injective {m n : ℕ} (h : Nat.toDigits 16 m = Nat.toDigits 16 n) : m = n := by
  induction m using Nat.strong_induction_on generalizing n with
  | _ m ih =>
      have hlast (k : ℕ) : k % 16 < 16 := Nat.mod_lt k (by decide)
      rw [toDigits_sixteen m, toDigits_sixteen n] at h
      split at h <;> split at h
      · exact digitChar_injective ‹_› ‹_› (List.cons.inj h).1
      · simp [List.singleton_eq_append_iff, Nat.toDigits_ne_nil] at h
      · simp [List.append_eq_singleton_iff, Nat.toDigits_ne_nil] at h
      · obtain ⟨hfront, hdigit⟩ := List.append_inj' h rfl
        have hfront := ih (m / 16) (Nat.div_lt_self (by omega) (by decide)) hfront
        have hdigit := digitChar_injective (hlast m) (hlast n) (List.cons.inj hdigit).1
        omega

/-- The characters of a hexadecimal number. -/
def isHexDigit (c : Char) : Bool := c.isDigit || ('a' ≤ c && c ≤ 'f')

theorem isHexDigit_of_mem_toDigits {n : ℕ} : ∀ c ∈ Nat.toDigits 16 n, isHexDigit c = true := by
  have hall : ∀ m < 16, isHexDigit (Nat.digitChar m) = true := by decide
  induction n using Nat.strong_induction_on with
  | _ n ih =>
      intro c hc
      rw [toDigits_sixteen] at hc
      split at hc
      · rw [List.mem_singleton.mp hc]
        exact hall n ‹_›
      · rcases List.mem_append.mp hc with hc | hc
        · exact ih (n / 16) (Nat.div_lt_self (by omega) (by decide)) c hc
        · rw [List.mem_singleton.mp hc]
          exact hall _ (Nat.mod_lt n (by decide))

/-! ### Characters -/

/-- The characters that are spelled by a backslash and one letter. -/
def letters : List (Char × Char) :=
  [('"', '"'), ('\\', '\\'), ('\n', 'n'), ('\r', 'r'), ('\t', 't'), ('\x00', '0')]

/-- The ways to spell a character. -/
inductive Spelling (c : Char) : List Char → Prop where
  | letter {e} (h : (c, e) ∈ letters) : Spelling c ['\\', e]
  | number : Spelling c (escapeNumber c)
  | plain (h : ∀ p ∈ letters, p.1 ≠ c) : Spelling c [c]

theorem spelling_escape (c : Char) : Spelling c (escape c) := by
  unfold escape
  split
  case h_7 hquote hbackslash hfeed hreturn htab hzero =>
    split
    · exact .number
    · refine .plain fun p hp heq => ?_
      subst heq
      simp only [letters, List.mem_cons, List.not_mem_nil, or_false] at hp
      rcases hp with rfl | rfl | rfl | rfl | rfl | rfl <;> contradiction
  all_goals exact .letter (by decide)

namespace Spelling

variable {c d : Char} {w v : List Char}

/-- No character is spelled like the front of another. -/
theorem append_injective (h : Spelling c w) (h' : Spelling d v) {behind behind' : List Char}
    (heq : w ++ behind = v ++ behind') : c = d ∧ behind = behind' := by
  have hletter : ∀ p ∈ letters, p.2 ≠ 'u' := by decide
  have hbackslash {c : Char} (h : ∀ p ∈ letters, p.1 ≠ c) : '\\' ≠ c := h ('\\', '\\') (by decide)
  cases h with
  | letter h =>
      cases h' with
      | letter h' =>
          have hsame : ∀ p ∈ letters, ∀ q ∈ letters, p.2 = q.2 → p.1 = q.1 := by decide
          simp only [List.cons_append, List.nil_append, List.cons.injEq, true_and] at heq
          exact ⟨hsame _ h _ h' heq.1, heq.2⟩
      | number =>
          simp only [escapeNumber, List.cons_append, List.nil_append, List.cons.injEq, true_and] at heq
          exact absurd heq.1 (hletter _ h)
      | plain h' =>
          simp only [List.cons_append, List.nil_append, List.cons.injEq] at heq
          exact absurd heq.1 (hbackslash h')
  | number =>
      cases h' with
      | letter h' =>
          simp only [escapeNumber, List.cons_append, List.nil_append, List.cons.injEq, true_and] at heq
          exact absurd heq.1.symm (hletter _ h')
      | number =>
          simp only [escapeNumber, List.append_assoc, List.cons_append, List.nil_append, List.cons.injEq,
            true_and] at heq
          obtain ⟨hdigits, hrest⟩ := append_injective_of_front isHexDigit_of_mem_toDigits isHexDigit_of_mem_toDigits
            (by simp [isHexDigit]) (by simp [isHexDigit]) heq
          exact ⟨Char.toNat_inj.mp (toDigits_sixteen_injective hdigits), (List.cons.inj hrest).2⟩
      | plain h' =>
          simp only [escapeNumber, List.cons_append, List.nil_append, List.cons.injEq] at heq
          exact absurd heq.1 (hbackslash h')
  | plain h =>
      cases h' with
      | letter h' =>
          simp only [List.cons_append, List.nil_append, List.cons.injEq] at heq
          exact absurd heq.1.symm (hbackslash h)
      | number =>
          simp only [escapeNumber, List.cons_append, List.nil_append, List.cons.injEq] at heq
          exact absurd heq.1.symm (hbackslash h)
      | plain h' => simpa using heq

/-- The closing quote is not the front of any character. -/
theorem head?_ne (h : Spelling c w) {behind behind' : List Char} : w ++ behind ≠ '"' :: behind' := by
  intro heq
  cases h with
  | letter h => cases (List.cons.inj heq).1
  | number => cases (List.cons.inj heq).1
  | plain h => exact h ('"', '"') (by decide) (List.cons.inj heq).1.symm

theorem newline_notMem (h : Spelling c w) : '\n' ∉ w := by
  cases h with
  | letter h =>
      have hall : ∀ p ∈ letters, '\n' ≠ p.2 := by decide
      simpa using hall _ h
  | number =>
      have hdigits : '\n' ∉ Nat.toDigits 16 c.toNat := fun hmem => by cases isHexDigit_of_mem_toDigits _ hmem
      simp [escapeNumber, hdigits]
  | plain h => simpa using h ('\n', 'n') (by decide)

end Spelling

/-! ### Texts -/

/-- The first quote behind the characters that a quoted text spells is the closing one. -/
theorem spelled_append_injective {cs ds behind behind' : List Char}
    (h : cs.flatMap escape ++ '"' :: behind = ds.flatMap escape ++ '"' :: behind') : cs = ds ∧ behind = behind' := by
  induction cs generalizing ds with
  | nil =>
      cases ds with
      | nil => simpa using h
      | cons d ds =>
          rw [List.flatMap_cons, List.append_assoc] at h
          exact absurd h.symm (spelling_escape d).head?_ne
  | cons c cs ih =>
      rw [List.flatMap_cons, List.append_assoc] at h
      cases ds with
      | nil => exact absurd h (spelling_escape c).head?_ne
      | cons d ds =>
          rw [List.flatMap_cons, List.append_assoc] at h
          obtain ⟨rfl, hrest⟩ := (spelling_escape c).append_injective (spelling_escape d) h
          obtain ⟨rfl, hbehind⟩ := ih hrest
          exact ⟨rfl, hbehind⟩

theorem quote_append_injective {cs ds behind behind' : List Char} (h : quote cs ++ behind = quote ds ++ behind') :
    cs = ds ∧ behind = behind' := by
  simp only [quote, List.cons_append, List.append_assoc, List.nil_append, List.cons.injEq, true_and] at h
  exact spelled_append_injective h

theorem newline_notMem_quote (cs : List Char) : '\n' ∉ quote cs := by
  have hspelled : '\n' ∉ cs.flatMap escape := by
    rw [List.mem_flatMap]
    rintro ⟨c, -, hc⟩
    exact (spelling_escape c).newline_notMem hc
  simp [quote, hspelled]

end LayoutRule.Text
