import LayoutRule.Proofs.Scanner.Longest
import Mathlib.Data.String.Basic

/-! # Places of replies

A scanner can tell the place of a reply from the number of the line that it is on and the offset at which
that line starts, if it moves both behind each line break: no other lexeme, gap or refused text holds a line
feed. The stretches that the replies are about follow each other through the whole text. -/

namespace LayoutRule

open String (utf8Len)

/-! ### Stretches of a text -/

namespace Span

/-- The stretch lies in the text, and it begins and ends between two characters. -/
structure Within (span : Span) (text : String) : Prop where
  start_isValid : String.Pos.Raw.IsValid text ⟨span.start⟩
  stop_isValid : String.Pos.Raw.IsValid text ⟨span.stop⟩
  start_le_stop : span.start ≤ span.stop

/-- The characters of a stretch. -/
def slice (span : Span) (text : String) : String :=
  String.Pos.Raw.extract text ⟨span.start⟩ ⟨span.stop⟩

private theorem isValid_utf8Len {text : String} {before behind : List Char}
    (h : text.toList = before ++ behind) : String.Pos.Raw.IsValid text ⟨utf8Len before⟩ := by
  refine String.Pos.Raw.isValid_iff_exists_append.mpr ⟨String.ofList before, String.ofList behind, ?_, ?_⟩
  · rw [← String.ofList_append, ← h, String.ofList_toList]
  · rw [String.rawEndPos_ofList]

/-- A part of the text is found at the number of bytes in front of it. -/
theorem within_of_toList_eq {text : String} {before part behind : List Char}
    (h : text.toList = before ++ part ++ behind) :
    (Span.mk (utf8Len before) (utf8Len (before ++ part))).Within text where
  start_isValid := isValid_utf8Len (by rw [h, List.append_assoc])
  stop_isValid := isValid_utf8Len h
  start_le_stop := by simp

theorem slice_of_toList_eq {text : String} {before part behind : List Char}
    (h : text.toList = before ++ part ++ behind) :
    (Span.mk (utf8Len before) (utf8Len (before ++ part))).slice text = String.ofList part := by
  have htext : text = String.ofList (before ++ part ++ behind) := by rw [← h, String.ofList_toList]
  rw [slice, htext, String.utf8Len_append]
  exact String.extract_of_valid before part behind

end Span

/-! ### Lines and columns -/

/-- The line and the column of an offset, counted in the text in front of it: line feeds, and the characters
behind the last of them. -/
structure IsPlace (text : String) (offset line column : ℕ) : Prop where
  line_eq : line = 1 + ((Span.mk 0 offset).slice text).toList.count '\n'
  column_eq : column = (((Span.mk 0 offset).slice text).toList.reverse.takeWhile (· ≠ '\n')).length

/-- The line that is being scanned: its number, and the offset at which it starts. -/
structure LineMark where
  line : ℕ
  start : ℕ

namespace LineMark

def first : LineMark := ⟨1, 0⟩

/-- The mark behind a reply: a line break starts a line, and nothing else does. -/
def behind (mark : LineMark) : Reply → LineMark
  | .ok t => if t.kind = .lineBreak then ⟨mark.line + 1, t.span.stop⟩ else mark
  | .error _ => mark

/-- The mark gives the line and the column of an offset: the stretch from the start of the line to the offset
can be cut out of the text, and it has a character for each column. -/
structure Gives (mark : LineMark) (text : String) (offset line column : ℕ) : Prop where
  line_eq : line = mark.line
  within : (Span.mk mark.start offset).Within text
  column_eq : column = ((Span.mk mark.start offset).slice text).length

end LineMark

/-- A reply and the stretch that it is about. The text of a token, and a refused text, is the stretch itself
and not empty. The end token is about the empty stretch behind the text. -/
inductive About (text : String) (mark : LineMark) (span : Span) : Reply → Prop where
  | token {t} : t.isEnd = false → t.span = span → t.text = span.slice text → span.start < span.stop →
      IsPlace text span.start t.line t.column → mark.Gives text span.start t.line t.column →
      About text mark span (.ok t)
  | refusal {line column part} : part = span.slice text → span.start < span.stop →
      IsPlace text span.start line column → mark.Gives text span.start line column →
      About text mark span (.error (.unexpectedCharacter line column part))
  | finish {t} : t.isEnd = true → t.span = span → span = ⟨text.utf8ByteSize, text.utf8ByteSize⟩ →
      IsPlace text span.start t.line t.column → mark.Gives text span.start t.line t.column →
      About text mark span (.ok t)

/-! ### Positions behind parts of a line -/

namespace Position

theorem advance_offset (p : Position) (cs : List Char) :
    (p.advance cs).offset = p.offset + utf8Len cs := by
  induction cs generalizing p with
  | nil => simp
  | cons c cs ih =>
      have hstep : (p.step c).offset = p.offset + c.utf8Size := by
        rw [step]
        split <;> rfl
      rw [advance_cons, ih, hstep, String.utf8Len_cons]
      omega

theorem advance_column {cs : List Char} (h : '\n' ∉ cs) (p : Position) :
    (p.advance cs).column = p.column + cs.length := by
  induction cs generalizing p with
  | nil => simp
  | cons c cs ih =>
      obtain ⟨hc, hcs⟩ := List.ne_and_not_mem_of_not_mem_cons h
      rw [advance_cons, ih hcs, step, if_neg (Ne.symm hc), List.length_cons, Nat.add_right_comm,
        Nat.add_assoc]

theorem advance_line_feed_column (p : Position) (cs : List Char) :
    (p.advance (cs ++ ['\n'])).column = 0 := by
  rw [advance_append]
  simp [step]

end Position

/-! ### Lexemes and refused texts as parts of lines -/

namespace Vocabulary

theorem mem_lineBreaks_of_lexeme? {cs w : List Char} (h : lexeme? cs = some (.lineBreak, w)) : w ∈ lineBreaks := by
  obtain ⟨p, hp, hw⟩ := (isLongest_of_lexeme? h).mem
  have hkind := kind_of_lexeme? h hp hw
  split at hkind
  · simp at hkind
  · rcases mem_patterns.mp hp with ⟨text, -, rfl⟩ | rfl | rfl | rfl | rfl | ⟨text, -, rfl⟩ |
      ⟨text, -, rfl⟩ | rfl
    case inr.inr.inr.inr.inr.inr.inr => exact hw
    all_goals simp at hkind

/-- A line break has its line feed last, and any other lexeme has none. -/
theorem lexeme?_line {cs w : List Char} {k : TokenKind} (h : lexeme? cs = some (k, w)) :
    k = .lineBreak ∧ (∃ part, w = part ++ ['\n'] ∧ '\n' ∉ part) ∨ k.isOrdinary = true ∧ '\n' ∉ w := by
  obtain ⟨-, -, ⟨rfl, -⟩ | hordinary⟩ := lexeme?_spec h
  · left
    rcases mem_lineBreaks.mp (mem_lineBreaks_of_lexeme? h) with rfl | rfl
    · exact ⟨rfl, [], rfl, by simp⟩
    · exact ⟨rfl, ['\r'], rfl, by simp⟩
  · exact Or.inr hordinary

theorem stray_isPrefix (cs : List Char) : stray cs <+: cs := by
  cases cs with
  | nil => exact List.prefix_rfl
  | cons c cs =>
      rw [stray]
      split
      · exact List.cons_prefix_cons.mpr ⟨rfl, quotedRun_isPrefix c cs⟩
      · exact List.cons_prefix_cons.mpr ⟨rfl, List.nil_prefix⟩

theorem stray_ne_nil {cs : List Char} (h : cs ≠ []) : stray cs ≠ [] := by
  obtain ⟨c, cs, rfl⟩ := List.exists_cons_of_ne_nil h
  rw [stray]
  split <;> simp

theorem newline_notMem_stray {cs : List Char} (h : lexeme? cs = none) : '\n' ∉ stray cs := by
  cases cs with
  | nil => simp [stray]
  | cons c cs =>
      have hc : '\n' ≠ c := by
        rintro rfl
        have hbreak : lexeme? ('\n' :: cs) = some (.lineBreak, ['\n']) := (Lexeme.lineFeed rfl).lexeme?_eq
        simp [hbreak] at h
      rw [stray]
      split
      · simp [hc, newline_notMem_quotedRun]
      · simp [hc]

end Vocabulary

/-! ### Where a scanner stands -/

/-- The mark behind whole lines. -/
def LineMark.below (above : List Char) : LineMark := ⟨1 + above.count '\n', utf8Len above⟩

namespace Scanner

/-- The scanner is behind the whole lines `above` and the part `current` of the line that it is on. -/
structure Stands (text : String) (above current : List Char) (s : Scanner) : Prop where
  text_eq : text.toList = above ++ current ++ s.rest
  above_ends : above = [] ∨ ∃ front, above = front ++ ['\n']
  current_line : '\n' ∉ current
  line_eq : s.position.line = 1 + above.count '\n'
  column_eq : s.position.column = current.length
  offset_eq : s.position.offset = utf8Len (above ++ current)

variable {text : String} {above current part : List Char} {s : Scanner}

theorem stands_ofText (text : String) : (ofText text).Stands text [] [] where
  text_eq := rfl
  above_ends := Or.inl rfl
  current_line := by simp
  line_eq := rfl
  column_eq := rfl
  offset_eq := rfl

namespace Stands

theorem text_eq_skip (h : s.Stands text above current) (hpart : part <+: s.rest) :
    text.toList = above ++ current ++ part ++ (s.skip part).rest := by
  have hrest : part ++ (s.skip part).rest = s.rest := List.prefix_iff_eq_append.mp hpart
  rw [h.text_eq, ← hrest]
  simp

theorem skip (h : s.Stands text above current) (hpart : part <+: s.rest) (hline : '\n' ∉ part) :
    (s.skip part).Stands text above (current ++ part) where
  text_eq := by rw [h.text_eq_skip hpart, List.append_assoc above]
  above_ends := h.above_ends
  current_line := by simp [h.current_line, hline]
  line_eq := by
    have hcount := List.count_eq_zero_of_not_mem hline
    simp [Scanner.skip, Position.advance_line, h.line_eq, hcount]
  column_eq := by simp [Scanner.skip, Position.advance_column hline, h.column_eq]
  offset_eq := by
    simp only [Scanner.skip, Position.advance_offset, h.offset_eq, String.utf8Len_append]
    omega

theorem skip_line (h : s.Stands text above current) (hpart : part ++ ['\n'] <+: s.rest) :
    (s.skip (part ++ ['\n'])).Stands text (above ++ current ++ (part ++ ['\n'])) [] where
  text_eq := by rw [h.text_eq_skip hpart, List.append_nil]
  above_ends := Or.inr ⟨_, (List.append_assoc _ _ _).symm⟩
  current_line := by simp
  line_eq := by
    have hcurrent := List.count_eq_zero_of_not_mem h.current_line
    simp only [Scanner.skip, Position.advance_line, h.line_eq, List.count_append, hcurrent]
    omega
  column_eq := Position.advance_line_feed_column _ _
  offset_eq := by
    simp only [Scanner.skip, Position.advance_offset, h.offset_eq, List.append_nil, String.utf8Len_append]

theorem isPlace (h : s.Stands text above current) :
    IsPlace text s.position.offset s.position.line s.position.column := by
  have htext : text.toList = [] ++ (above ++ current) ++ s.rest := h.text_eq
  have hslice : (Span.mk 0 s.position.offset).slice text = String.ofList (above ++ current) := by
    rw [h.offset_eq]
    exact Span.slice_of_toList_eq htext
  refine ⟨?_, ?_⟩
  · have hcount := List.count_eq_zero_of_not_mem h.current_line
    rw [hslice, h.line_eq]
    simp [hcount]
  · have habove : above.reverse.takeWhile (· ≠ '\n') = [] := by
      rcases h.above_ends with rfl | ⟨front, rfl⟩ <;> simp
    have hcurrent : ∀ c ∈ current.reverse, decide (c ≠ '\n') = true := by
      intro c hc
      have hc' : c ≠ '\n' := by
        rintro rfl
        exact h.current_line (List.mem_reverse.mp hc)
      simpa using hc'
    rw [hslice, h.column_eq, String.toList_ofList, List.reverse_append, List.takeWhile_append_of_pos hcurrent,
      habove, List.append_nil, List.length_reverse]

theorem gives (h : s.Stands text above current) :
    (LineMark.below above).Gives text s.position.offset s.position.line s.position.column := by
  have hwithin := Span.within_of_toList_eq h.text_eq
  have hslice := Span.slice_of_toList_eq h.text_eq
  rw [← h.offset_eq] at hwithin hslice
  exact ⟨h.line_eq, hwithin, by rw [LineMark.below, hslice, h.column_eq, String.length_ofList]⟩

/-- The part in front of the text that is left, as a stretch. -/
theorem slice_skip (h : s.Stands text above current) (hpart : part <+: s.rest) :
    (Span.mk s.position.offset (s.skip part).position.offset).Within text ∧
      (Span.mk s.position.offset (s.skip part).position.offset).slice text = String.ofList part := by
  have htext := h.text_eq_skip hpart
  have hstop : (s.skip part).position.offset = utf8Len (above ++ current ++ part) := by
    rw [Scanner.skip, Position.advance_offset, h.offset_eq, ← String.utf8Len_append]
  rw [hstop, h.offset_eq]
  exact ⟨Span.within_of_toList_eq htext, Span.slice_of_toList_eq htext⟩

/-- At the start of a line the mark is the position. -/
theorem below_eq (h : s.Stands text above []) :
    LineMark.below above = ⟨s.position.line, s.position.offset⟩ := by
  rw [LineMark.below, h.line_eq, h.offset_eq, List.append_nil]

theorem skipGap (h : s.Stands text above current) :
    s.skipGap.Stands text above (current ++ Vocabulary.gap s.rest) :=
  h.skip (Vocabulary.gap_isPrefix s.rest) (Vocabulary.newline_notMem_gap s.rest)

end Stands

theorem offset_lt_skip (hpart : part ≠ []) : s.position.offset < (s.skip part).position.offset := by
  have hsize : utf8Len part ≠ 0 := by simpa using hpart
  rw [Scanner.skip, Position.advance_offset]
  omega

theorem isEnd_tokenAt {cs w : List Char} {k : TokenKind} (h : Vocabulary.lexeme? cs = some (k, w)) :
    (s.tokenAt k w).isEnd = false :=
  decide_eq_false (Vocabulary.lexeme?_spec h).2.ne_endOfInput

/-- The stretch that the next reply is about: it begins behind the gap. -/
def nextSpan (s : Scanner) : Span := ⟨s.skipGap.position.offset, s.pull.2.position.offset⟩

/-- A reply is about the stretch behind the gap, and the mark moves with the scanner. -/
theorem Stands.pull (h : s.Stands text above current) :
    s.nextSpan.Within text ∧ About text (.below above) s.nextSpan s.pull.1 ∧
      ∃ above' current', s.pull.2.Stands text above' current' ∧
        (LineMark.below above).behind s.pull.1 = .below above' := by
  have hgap := h.skipGap
  have hplace := hgap.isPlace
  have hgives := hgap.gives
  rw [nextSpan]
  rcases s.pull_cases with ⟨k, w, hlexeme, hpull⟩ | ⟨hrest, hpull⟩ | ⟨hrest, hlexeme, hpull⟩
  · obtain ⟨-, hne, -⟩ := Vocabulary.lexeme?_spec hlexeme
    have hprefix := (Vocabulary.isLongest_of_lexeme? hlexeme).isPrefix
    obtain ⟨hwithin, hslice⟩ := hgap.slice_skip hprefix
    have hsome := offset_lt_skip (s := s.skipGap) hne
    rw [hpull]
    -- a line break moves the mark to its own end, and the end is where the next line starts
    rcases Vocabulary.lexeme?_line hlexeme with ⟨rfl, part, rfl, hpart⟩ | ⟨hk, hnone⟩
    · have hnext := hgap.skip_line hprefix
      refine ⟨hwithin, .token rfl rfl hslice.symm hsome hplace hgives, _, _, hnext, ?_⟩
      have hline : (s.skipGap.skip (part ++ ['\n'])).position.line = s.skipGap.position.line + 1 := by
        simp [Scanner.skip, Position.advance_line, List.count_eq_zero_of_not_mem hpart]
      rw [hnext.below_eq, hline, hgap.line_eq]
      rfl
    · have hbreak : k ≠ .lineBreak := by
        rintro rfl
        simp [TokenKind.isOrdinary] at hk
      refine ⟨hwithin, .token (isEnd_tokenAt hlexeme) rfl hslice.symm hsome hplace hgives,
        _, _, hgap.skip hprefix hnone, ?_⟩
      simp [LineMark.behind, tokenAt, hbreak]
  · obtain ⟨hwithin, -⟩ := hgap.slice_skip List.nil_prefix
    have hoffset : s.skipGap.position.offset = text.utf8ByteSize := by
      rw [hgap.offset_eq, ← String.utf8Len_toList, hgap.text_eq, hrest, List.append_nil]
    rw [hpull]
    exact ⟨hwithin, .finish rfl rfl (by simp [hoffset]) hplace hgives, _, _, hgap, rfl⟩
  · have hprefix := Vocabulary.stray_isPrefix s.skipGap.rest
    obtain ⟨hwithin, hslice⟩ := hgap.slice_skip hprefix
    have hsome := offset_lt_skip (s := s.skipGap) (Vocabulary.stray_ne_nil hrest)
    rw [hpull]
    exact ⟨hwithin, .refusal hslice.symm hsome hplace hgives, _, _,
      hgap.skip hprefix (Vocabulary.newline_notMem_stray hlexeme), rfl⟩

end Scanner

end LayoutRule
