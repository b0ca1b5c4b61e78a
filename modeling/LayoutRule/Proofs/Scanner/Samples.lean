import LayoutRule.Proofs.Scanner.WholeLines
import LayoutRule.Proofs.Source.Horizon
import LayoutRule.Proofs.Text.Parts
import LayoutRule.Sample

/-! # Sample texts

A sample text is scanned to the tokens that are laid out for the same columns. The name of a line begins with a
letter that no keyword begins with, and digits follow it. -/

namespace LayoutRule

open TokenSource

/-! ### Characters of a single byte -/

section Single

variable {cs : List Char} (h : ∀ c ∈ cs, c ≠ '\n' ∧ c.utf8Size = 1)

include h

theorem utf8Len_of_single : String.utf8Len cs = cs.length := by
  induction cs with
  | nil => rfl
  | cons c cs ih =>
      rw [String.utf8Len_cons, ih fun d hd => h d (by simp [hd]), (h c (by simp)).2, List.length_cons]

theorem Position.advance_of_single (p : Position) :
    p.advance cs = ⟨p.line, p.column + cs.length, p.offset + cs.length⟩ := by
  have hline : '\n' ∉ cs := fun hmem => (h _ hmem).1 rfl
  calc p.advance cs = ⟨(p.advance cs).line, (p.advance cs).column, (p.advance cs).offset⟩ := rfl
    _ = ⟨p.line, p.column + cs.length, p.offset + cs.length⟩ := by
      rw [advance_line, List.count_eq_zero_of_not_mem hline, Nat.add_zero, advance_column hline,
        advance_offset, utf8Len_of_single h]

end Single

theorem utf8Size_of_isDigit {c : Char} (h : c.isDigit = true) : c.utf8Size = 1 := by
  have hle : c.val ≤ '9'.val := (by simpa [Char.isDigit] using h : _ ∧ _).2
  have hle : c.val ≤ 127 := UInt32.le_trans hle (by decide)
  simp [Char.utf8Size, hle]

/-- Blanks are the whole gap in front of what neither is a blank nor begins a comment. -/
theorem Vocabulary.gap_of_blanks {c : Char} (hblank : isBlank c = false) (hcomment : c ≠ '#') (n : ℕ)
    (cs : List Char) : gap (List.replicate n ' ' ++ c :: cs) = List.replicate n ' ' := by
  induction n with
  | zero => simp [gap, hblank, hcomment]
  | succ n ih => simp [List.replicate_succ, gap, isBlank, ih]

namespace Sample

/-! ### Names of lines -/

theorem toList_lineName (line : ℕ) : (lineName line).toList = 't' :: Nat.toDigits 10 line := by
  rw [lineName, String.toList_append, Nat.toString_eq_repr, Nat.toList_repr]
  rfl

theorem single_of_mem_lineName {line : ℕ} : ∀ c ∈ (lineName line).toList, c ≠ '\n' ∧ c.utf8Size = 1 := by
  intro c hc
  rw [toList_lineName] at hc
  rcases List.mem_cons.mp hc with rfl | hc
  · decide
  · have hdigit := Text.isDigit_of_mem_toDigits c hc
    refine ⟨?_, utf8Size_of_isDigit hdigit⟩
    rintro rfl
    cases hdigit

theorem length_lineName (line : ℕ) : (lineName line).toList.length = (lineName line).utf8ByteSize := by
  rw [← utf8Len_of_single single_of_mem_lineName, String.utf8Len_toList]

/-- Up to the end of its line a name is one word, and it is no keyword. -/
theorem lexeme?_lineName (line : ℕ) (rest : List Char) :
    Vocabulary.lexeme? ((lineName line).toList ++ '\n' :: rest) = some (.name, (lineName line).toList) := by
  have hword : (Nat.toDigits 10 line ++ '\n' :: rest).takeWhile Vocabulary.isNameChar = Nat.toDigits 10 line := by
    rw [List.takeWhile_append_of_pos, List.takeWhile_cons_of_neg (by decide), List.append_nil]
    intro c hc
    simp [Vocabulary.isNameChar, Char.isAlphanum, Text.isDigit_of_mem_toDigits c hc]
  have hkind : Vocabulary.wordKind ('t' :: Nat.toDigits 10 line) = .name := by
    have hfirst : ∀ text ∈ Vocabulary.keywords, text.toList.head? ≠ some 't' := by decide
    rw [Vocabulary.wordKind, if_neg]
    exact fun hmem => hfirst _ hmem (by simp)
  have hlexeme : Vocabulary.lexeme? ('t' :: (Nat.toDigits 10 line ++ '\n' :: rest)) = _ :=
    (Vocabulary.Lexeme.word rfl).lexeme?_eq
  rw [toList_lineName, List.cons_append, hlexeme, hword, hkind]

/-! ### Lines -/

theorem pull_name (line column offset : ℕ) (rest : List Char) :
    let behind := column + (lineName line).utf8ByteSize
    (Scanner.mk (List.replicate column ' ' ++ (lineName line).toList ++ '\n' :: rest) ⟨line, 0, offset⟩).pull =
      (.ok (nameToken (lineName line) line column (offset + column)),
        ⟨'\n' :: rest, ⟨line, behind, offset + behind⟩⟩) := by
  intro behind
  have hgap : Vocabulary.gap (List.replicate column ' ' ++ (lineName line).toList ++ '\n' :: rest) =
      List.replicate column ' ' := by
    rw [List.append_assoc, toList_lineName]
    exact Vocabulary.gap_of_blanks (by decide) (by decide) column _
  have hblanks : ∀ c ∈ List.replicate column ' ', c ≠ '\n' ∧ c.utf8Size = 1 := by
    intro c hc
    rw [List.eq_of_mem_replicate hc]
    decide
  have hskip : (Scanner.mk (List.replicate column ' ' ++ (lineName line).toList ++ '\n' :: rest)
      ⟨line, 0, offset⟩).skipGap = ⟨(lineName line).toList ++ '\n' :: rest, ⟨line, column, offset + column⟩⟩ := by
    rw [Scanner.skipGap, hgap, Scanner.skip, List.append_assoc, List.drop_left, Position.advance_of_single hblanks,
      List.length_replicate, Nat.zero_add]
  rw [Scanner.pull, hskip, Scanner.read, lexeme?_lineName]
  simp [Scanner.tokenAt, Scanner.skip, Position.advance_of_single single_of_mem_lineName, length_lineName,
    nameToken, token, behind, Nat.add_assoc]

theorem pull_lineBreak (line column offset : ℕ) (rest : List Char) :
    (Scanner.mk ('\n' :: rest) ⟨line, column, offset⟩).pull =
      (.ok (lineBreak line column offset), ⟨rest, ⟨line + 1, 0, offset + 1⟩⟩) := by
  have hlexeme : Vocabulary.lexeme? ('\n' :: rest) = _ := (Vocabulary.Lexeme.lineFeed rfl).lexeme?_eq
  have hskip : (Scanner.mk ('\n' :: rest) ⟨line, column, offset⟩).skipGap =
      ⟨'\n' :: rest, ⟨line, column, offset⟩⟩ := rfl
  rw [Scanner.pull, hskip, Scanner.read, hlexeme]
  rfl

/-- From the start of a line on, the text of some lines is scanned to their tokens. -/
theorem reads_textFrom (line offset : ℕ) (columns : List ℕ) :
    ∃ before final s', linesFrom line offset columns = before ++ [final] ∧
      Reads (Scanner.mk (textFrom line columns) ⟨line, 0, offset⟩) before (.ok final) s' := by
  induction columns generalizing line offset with
  | nil => exact ⟨[], Token.endOfInput line 0 offset, _, rfl, .stop rfl rfl⟩
  | cons column columns ih =>
      obtain ⟨before, final, s', hlines, hreads⟩ :=
        ih (line + 1) (offset + (column + (lineName line).utf8ByteSize) + 1)
      have hbreak := pull_lineBreak line (column + (lineName line).utf8ByteSize)
        (offset + (column + (lineName line).utf8ByteSize)) (textFrom (line + 1) columns)
      exact ⟨_ :: _ :: before, final, s', by rw [linesFrom, hlines]; rfl,
        .token (pull_name line column offset _) rfl (.token hbreak rfl hreads)⟩

/-- The scanner of a sample text reads the tokens of its lines. -/
theorem reads_textAt (columns : List ℕ) :
    ∃ before final s', linesAt columns = before ++ [final] ∧
      Reads (Scanner.ofText (textAt columns)) before (.ok final) s' := by
  have htext : Scanner.ofText (textAt columns) = ⟨textFrom 1 columns, ⟨1, 0, 0⟩⟩ := by
    simp [Scanner.ofText, textAt, Position.start]
  rw [htext]
  exact reads_textFrom 1 0 columns

end Sample

/-- The two ways to lay out lines at given columns describe one text: the text of the lines is scanned to their
tokens, the same in kind, text, line, column and span, with the same end token behind them. -/
theorem tokenize_textAt (columns : List ℕ) : tokenize (Sample.textAt columns) = .ok (Sample.linesAt columns) := by
  obtain ⟨before, final, s', hlines, hreads⟩ := Sample.reads_textAt columns
  rw [tokenize_of_reads hreads, hlines]
  rfl

end LayoutRule
