import LayoutRule.Format.Dump
import LayoutRule.Proofs.Text.Quoted
import Mathlib.Data.List.Forall2

/-! # Dumps told apart

A dump line shows everything of a token but its span. What a text holds cannot be mistaken for the rest of its line:
the quoted text ends with its closing quote, and each number ends with the words that come after it. -/

namespace LayoutRule

namespace Token

/-- What the dump line of a token shows. -/
def SameButSpan (t u : Token) : Prop :=
  t.kind = u.kind ∧ t.text = u.text ∧ t.line = u.line ∧ t.column = u.column

variable {t u : Token}

theorem newline_notMem_column3 (n : ℤ) : '\n' ∉ Text.column3 n := by
  have hnumber : '\n' ∉ (toString n).toList := fun hmem => by cases Text.isNumeral_of_mem_toString _ hmem
  rw [Text.column3, Text.padLeft, List.mem_append, not_or]
  exact ⟨by simp, hnumber⟩

theorem newline_notMem_dumpChars (t : Token) : '\n' ∉ t.dumpChars := by
  simp [dumpChars, Text.padRight, Text.newline_notMem_quote, newline_notMem_column3]

/-- Between the quoted text and the word behind it there are blanks only. -/
theorem padRight_quote_injective {cs ds behind behind' : List Char}
    (h : Text.padRight 15 (Text.quote cs) ++ "  type=".toList ++ behind =
      Text.padRight 15 (Text.quote ds) ++ "  type=".toList ++ behind') : cs = ds ∧ behind = behind' := by
  simp only [Text.padRight, List.append_assoc] at h
  obtain ⟨rfl, hrest⟩ := Text.quote_append_injective h
  exact ⟨rfl, by simpa using hrest⟩

/-- Tokens with one dump line differ in their spans at most. -/
theorem sameButSpan_of_dumpChars_eq (h : t.dumpChars = u.dumpChars) : t.SameButSpan u := by
  have hline : ∀ c ∈ "  line=".toList.head?, Text.isNumeral c = false := by simp [Text.isNumeral]
  have hcol : ∀ c ∈ "  col=".toList.head?, Text.isNumeral c = false := by simp [Text.isNumeral]
  obtain ⟨htext, hcode⟩ := padRight_quote_injective (by simpa only [dumpChars, List.append_assoc] using h)
  obtain ⟨hkind, hrest⟩ := Text.column3_append_injective (by simpa using hline) (by simpa using hline) hcode
  obtain ⟨hline, hrest⟩ := Text.column3_append_injective (by simpa using hcol) (by simpa using hcol)
    (List.append_cancel_left hrest)
  obtain ⟨hcolumn, -⟩ := Text.column3_append_injective (by simp) (by simp)
    (congrArg (· ++ []) (List.append_cancel_left hrest))
  exact ⟨TokenKind.code_injective hkind, String.toList_injective htext, Int.ofNat_inj.mp hline,
    Int.ofNat_inj.mp hcolumn⟩

theorem SameButSpan.dumpChars_eq (h : t.SameButSpan u) : t.dumpChars = u.dumpChars := by
  obtain ⟨hkind, htext, hline, hcolumn⟩ := h
  rw [dumpChars, dumpChars, hkind, htext, hline, hcolumn]

end Token

open Token

/-- A dump is made of the dump lines of its tokens, each behind the other and ended by a line feed, and there is no
line feed in a dump line. Two token lists have one dump exactly if they are of one length and their tokens agree place
by place in kind, text, line and column, whatever their texts hold. -/
theorem dump_tells_tokens :
    (∀ tokens, (dump tokens).toList = tokens.flatMap fun t => t.dumpLine.toList ++ ['\n']) ∧
      (∀ t : Token, '\n' ∉ t.dumpLine.toList) ∧
      ∀ ts us : List Token, dump ts = dump us ↔ List.Forall₂ SameButSpan ts us := by
  refine ⟨fun tokens => by simp [dump, dumpLine], fun t => ?_, fun ts us => ⟨fun h => ?_, fun h => ?_⟩⟩
  · simpa [dumpLine] using newline_notMem_dumpChars t
  · have hlines : ts.map dumpChars = us.map dumpChars := by
      refine Text.lines_injective (List.forall_mem_map.mpr fun t _ => newline_notMem_dumpChars t)
        (List.forall_mem_map.mpr fun t _ => newline_notMem_dumpChars t) ?_
      rw [List.flatMap_map, List.flatMap_map]
      exact String.ofList_injective h
    rw [← List.forall₂_eq_eq_eq, List.forall₂_map_left_iff, List.forall₂_map_right_iff] at hlines
    exact hlines.imp fun _ _ => sameButSpan_of_dumpChars_eq
  · rw [dump, dump]
    congr 1
    induction h with
    | nil => rfl
    | cons hsame _ ih => rw [List.flatMap_cons, List.flatMap_cons, hsame.dumpChars_eq, ih]

end LayoutRule
