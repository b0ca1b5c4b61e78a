import LayoutRule.Text.Padded
import Mathlib.Data.List.TakeWhile

/-! # Parts of a text

A text put together from parts can be taken apart in one way only if each part shows where it ends: a line ends with
the first line feed, and a number with the first character that no number has. -/

namespace LayoutRule.Text

section Front

variable {α : Type*} {p : α → Bool}

theorem takeWhile_append_of_head {behind : List α} (h : ∀ c ∈ behind.head?, p c = false) (front : List α) :
    (front ++ behind).takeWhile p = front.takeWhile p := by
  induction front with
  | nil =>
      cases behind with
      | nil => rfl
      | cons c behind => simp [h c rfl]
  | cons c front ih => simp only [List.cons_append, List.takeWhile_cons, ih]

theorem dropWhile_append_of_head {behind : List α} (h : ∀ c ∈ behind.head?, p c = false) (front : List α) :
    (front ++ behind).dropWhile p = front.dropWhile p ++ behind := by
  induction front with
  | nil =>
      cases behind with
      | nil => rfl
      | cons c behind => simp [h c rfl]
  | cons c front ih =>
      simp only [List.cons_append, List.dropWhile_cons, ih]
      split <;> rfl

/-- The front of a text is told from what stands behind it by a property that holds throughout the front and not
of the first character behind it. -/
theorem append_injective_of_front {front front' behind behind' : List α} (hfront : ∀ c ∈ front, p c = true)
    (hfront' : ∀ c ∈ front', p c = true) (hbehind : ∀ c ∈ behind.head?, p c = false)
    (hbehind' : ∀ c ∈ behind'.head?, p c = false) (h : front ++ behind = front' ++ behind') :
    front = front' ∧ behind = behind' := by
  obtain rfl : front = front' := by
    rw [← List.takeWhile_eq_self_iff.mpr hfront, ← takeWhile_append_of_head hbehind, h,
      takeWhile_append_of_head hbehind', List.takeWhile_eq_self_iff.mpr hfront']
  exact ⟨rfl, List.append_cancel_left h⟩

end Front

/-! ### Lines -/

/-- Lines can be told from the text that they make, if there is no line feed in them. -/
theorem lines_injective {lines lines' : List (List Char)} (hline : ∀ l ∈ lines, '\n' ∉ l)
    (hline' : ∀ l ∈ lines', '\n' ∉ l) (h : lines.flatMap (· ++ ['\n']) = lines'.flatMap (· ++ ['\n'])) :
    lines = lines' := by
  have hfront {l : List Char} (hl : '\n' ∉ l) : ∀ c ∈ l, decide (c ≠ '\n') = true :=
    fun c hc => decide_eq_true fun heq => hl (heq ▸ hc)
  induction lines generalizing lines' with
  | nil =>
      cases lines' with
      | nil => rfl
      | cons l' lines' => simp at h
  | cons l lines ih =>
      cases lines' with
      | nil => simp at h
      | cons l' lines' =>
          obtain ⟨hl, hlines⟩ := List.forall_mem_cons.mp hline
          obtain ⟨hl', hlines'⟩ := List.forall_mem_cons.mp hline'
          have hsplit : l ++ '\n' :: lines.flatMap (· ++ ['\n']) = l' ++ '\n' :: lines'.flatMap (· ++ ['\n']) := by
            simpa using h
          obtain ⟨rfl, hbehind⟩ := append_injective_of_front (hfront hl) (hfront hl') (by simp) (by simp) hsplit
          rw [ih hlines hlines' (List.cons.inj hbehind).2]

/-! ### Numbers -/

/-- The characters of a number in decimal. -/
def isNumeral (c : Char) : Bool := c = '-' || c.isDigit

theorem toList_toString_ofNat (n : ℕ) : (toString (Int.ofNat n)).toList = Nat.toDigits 10 n := Nat.toList_repr

theorem toList_toString_negSucc (n : ℕ) : (toString (Int.negSucc n)).toList = '-' :: Nat.toDigits 10 (n + 1) := by
  have hrepr : toString (Int.negSucc n) = "-" ++ (n + 1).repr := rfl
  rw [hrepr, String.toList_append, Nat.toList_repr]
  rfl

theorem isDigit_of_mem_toDigits {n : ℕ} : ∀ c ∈ Nat.toDigits 10 n, c.isDigit = true :=
  fun _ hc => Nat.isDigit_of_mem_toDigits (by decide) (by decide) hc

theorem isNumeral_of_mem_toString {n : ℤ} : ∀ c ∈ (toString n).toList, isNumeral c = true := by
  have hdigits (m : ℕ) : ∀ c ∈ Nat.toDigits 10 m, isNumeral c = true := fun c hc => by
    simp [isNumeral, isDigit_of_mem_toDigits c hc]
  cases n with
  | ofNat n => exact toList_toString_ofNat n ▸ hdigits n
  | negSucc n =>
      rw [toList_toString_negSucc]
      exact List.forall_mem_cons.mpr ⟨rfl, hdigits (n + 1)⟩

theorem toString_ne_nil (n : ℤ) : (toString n).toList ≠ [] := by
  cases n with
  | ofNat n => exact toList_toString_ofNat n ▸ Nat.toDigits_ne_nil
  | negSucc n => exact toList_toString_negSucc n ▸ List.cons_ne_nil _ _

theorem toDigits_injective {m n : ℕ} (h : Nat.toDigits 10 m = Nat.toDigits 10 n) : m = n := by
  rw [← Nat.ofDigitChars_ten_toDigits (n := m), h, Nat.ofDigitChars_ten_toDigits]

theorem toString_injective {m n : ℤ} (h : (toString m).toList = (toString n).toList) : m = n := by
  have hsign (k l : ℕ) : Nat.toDigits 10 k ≠ '-' :: Nat.toDigits 10 l := by
    intro heq
    cases isDigit_of_mem_toDigits '-' (heq ▸ List.mem_cons_self)
  cases m with
  | ofNat m =>
      cases n with
      | ofNat n =>
          rw [toList_toString_ofNat, toList_toString_ofNat] at h
          rw [toDigits_injective h]
      | negSucc n =>
          rw [toList_toString_ofNat, toList_toString_negSucc] at h
          exact absurd h (hsign _ _)
  | negSucc m =>
      cases n with
      | ofNat n =>
          rw [toList_toString_ofNat, toList_toString_negSucc] at h
          exact absurd h.symm (hsign _ _)
      | negSucc n =>
          rw [toList_toString_negSucc, toList_toString_negSucc] at h
          rw [Nat.succ.inj (toDigits_injective (List.cons.inj h).2)]

/-- A number ends where no character of a number stands. -/
theorem toString_append_injective {m n : ℤ} {behind behind' : List Char}
    (hbehind : ∀ c ∈ behind.head?, isNumeral c = false) (hbehind' : ∀ c ∈ behind'.head?, isNumeral c = false)
    (h : (toString m).toList ++ behind = (toString n).toList ++ behind') : m = n ∧ behind = behind' := by
  obtain ⟨hnumber, hrest⟩ :=
    append_injective_of_front isNumeral_of_mem_toString isNumeral_of_mem_toString hbehind hbehind' h
  exact ⟨toString_injective hnumber, hrest⟩

/-- The blanks in front of a number do not matter, as there are none in it. -/
theorem column3_append_injective {m n : ℤ} {behind behind' : List Char}
    (hbehind : ∀ c ∈ behind.head?, isNumeral c = false) (hbehind' : ∀ c ∈ behind'.head?, isNumeral c = false)
    (h : column3 m ++ behind = column3 n ++ behind') : m = n ∧ behind = behind' := by
  have hblanks (k : ℕ) : ∀ c ∈ List.replicate k ' ', decide (c = ' ') = true :=
    fun c hc => decide_eq_true (List.eq_of_mem_replicate hc)
  have hnumber (n : ℤ) (behind : List Char) :
      ∀ c ∈ ((toString n).toList ++ behind).head?, decide (c = ' ') = false := by
    obtain ⟨d, ds, hdigits⟩ := List.exists_cons_of_ne_nil (toString_ne_nil n)
    have hnumeral := isNumeral_of_mem_toString (n := n) d (hdigits ▸ List.mem_cons_self)
    intro c hc
    rw [hdigits, List.cons_append, List.head?_cons] at hc
    obtain rfl := Option.some.inj hc
    refine decide_eq_false ?_
    rintro rfl
    cases hnumeral
  simp only [column3, padLeft, List.append_assoc] at h
  obtain ⟨-, hrest⟩ := append_injective_of_front (hblanks _) (hblanks _) (hnumber m _) (hnumber n _) h
  exact toString_append_injective hbehind hbehind' hrest

end LayoutRule.Text
