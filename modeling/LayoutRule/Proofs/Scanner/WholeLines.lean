import LayoutRule.Proofs.Scanner.Places
import LayoutRule.Proofs.Tracker.Relabelling

/-! # Whole lines

No gap and no lexeme reaches beyond a line feed, so whole lines are scanned the same whatever stands behind
them. A line with nothing but a gap on it is scanned to its line break, and what stands behind it is scanned as
it would be without it, on other lines. -/

namespace LayoutRule

namespace Vocabulary

open Computability

/-- `[ \t\f]*(#[^\r\n]*)?\r?\n` -/
def blankLines : Language Char :=
  (oneOf [(' ', ' '), ('\t', '\t'), ('\x0c', '\x0c')])∗ * (1 + exactly "#" * (noneOf ['\r', '\n'])∗) * lineBreaks

theorem mem_blankLines {line : List Char} :
    line ∈ blankLines ↔ ∃ blanks comment ending, line = blanks ++ comment ++ ending ∧
      (∀ c ∈ blanks, isBlank c = true) ∧
      (comment = [] ∨ ∃ cs, comment = '#' :: cs ∧ ∀ c ∈ cs, endsLine c = false) ∧
      (ending = ['\n'] ∨ ending = ['\r', '\n']) := by
  simp only [blankLines, Language.mem_mul, Language.mem_add, Language.mem_one, mem_exactly, noneOf, mem_kstar_single,
    mem_kstar_oneOf, ← isBlank_iff, ← endsLine_iff, mem_lineBreaks]
  constructor
  · rintro ⟨_, ⟨blanks, hblanks, comment, rfl | ⟨_, rfl, cs, hcs, rfl⟩, rfl⟩, ending, hending, rfl⟩
    · exact ⟨blanks, [], ending, rfl, hblanks, Or.inl rfl, hending⟩
    · exact ⟨blanks, _, ending, rfl, hblanks, Or.inr ⟨cs, rfl, hcs⟩, hending⟩
  · rintro ⟨blanks, comment, ending, rfl, hblanks, rfl | ⟨cs, rfl, hcs⟩, hending⟩
    · exact ⟨_, ⟨blanks, hblanks, [], Or.inl rfl, rfl⟩, ending, hending, rfl⟩
    · exact ⟨_, ⟨blanks, hblanks, _, Or.inr ⟨_, rfl, cs, hcs, rfl⟩, rfl⟩, ending, hending, rfl⟩

/-! ### In front of a line feed -/

variable {cs w : List Char}

/-- What holds no line feed but at its end, and stands in front of a text, ends where the first line does or
before. -/
private theorem isPrefix_of_line {part behind : List Char} (hcs : '\n' ∈ cs) (hpart : '\n' ∉ part)
    (hw : w = part ∨ w = part ++ ['\n']) (h : w <+: cs ++ behind) : w <+: cs := by
  rcases List.prefix_or_prefix_of_prefix h (List.prefix_append cs behind) with hprefix | hlonger
  · exact hprefix
  · rcases hw with rfl | rfl
    · exact absurd (hlonger.subset hcs) hpart
    · rcases List.prefix_concat_iff.mp hlonger with rfl | hinside
      · exact List.prefix_rfl
      · exact absurd (hinside.subset hcs) hpart

theorem gap_append (hcs : '\n' ∈ cs) (behind : List Char) : gap (cs ++ behind) = gap cs := by
  refine gap_congr fun w hw => ⟨isPrefix_of_line hcs (fun hline => ?_) (Or.inl rfl), fun h => ?_⟩
  · cases endsLine_of_mem_gaps hw _ hline
  · exact h.trans (List.prefix_append cs behind)

/-- Up to a line feed the same words stand in front of a text. -/
theorem lexeme?_append (hcs : '\n' ∈ cs) (behind : List Char) : lexeme? (cs ++ behind) = lexeme? cs := by
  refine lexeme?_congr fun w hw => ⟨?_, fun h => h.trans (List.prefix_append cs behind)⟩
  obtain ⟨k, hlexeme⟩ := exists_lexeme?_of_mem_lexemes hw
  rcases lexeme?_line hlexeme with ⟨-, part, hpart, hnone⟩ | ⟨-, hnone⟩
  · exact isPrefix_of_line hcs hnone (Or.inr hpart)
  · exact isPrefix_of_line hcs hnone (Or.inl rfl)

theorem quotedRun_append_of_newline {quote : Char} (hcs : '\n' ∈ cs) (behind : List Char) :
    quotedRun quote (cs ++ behind) = quotedRun quote cs := by
  -- the text does not end in a lone backslash
  have hescape {c : Char} {cs : List Char} (hcs : '\n' ∈ c :: cs)
      (hlast : ∀ d ds, c = '\\' → cs = d :: ds → False) : c ≠ '\\' := by
    rintro rfl
    cases cs with
    | nil => simp at hcs
    | cons d ds => exact hlast d ds rfl rfl
  fun_induction quotedRun quote cs with
  | case1 => simp at hcs
  | case2 => rfl
  | case3 c cs hc ih =>
      have hcs : '\n' ∈ cs := by simpa [Ne.symm hc] using hcs
      simp [quotedRun, hc, ih hcs]
  | case4 c cs hlast hc =>
      rw [List.cons_append, quotedRun, if_pos hc]
      exact fun d ds hc => absurd hc (hescape hcs hlast)
  | case5 c cs hlast hc ih =>
      have hnewline : '\n' ≠ c := by
        rintro rfl
        exact hc (Or.inr (Or.inr rfl))
      have hrest : '\n' ∈ cs := by simpa [hnewline] using hcs
      rw [List.cons_append, quotedRun, if_neg hc, ih hrest]
      exact fun d ds hc => absurd hc (hescape hcs hlast)

theorem stray_append (hcs : '\n' ∈ cs) (behind : List Char) (h : lexeme? cs = none) :
    stray (cs ++ behind) = stray cs := by
  cases cs with
  | nil => simp at hcs
  | cons c cs =>
      have hc : '\n' ≠ c := by
        rintro rfl
        have hbreak : lexeme? ('\n' :: cs) = some (.lineBreak, ['\n']) := (Lexeme.lineFeed rfl).lexeme?_eq
        simp [hbreak] at h
      have hcs : '\n' ∈ cs := by simpa [hc] using hcs
      rw [List.cons_append, stray, stray, quotedRun_append_of_newline hcs]

/-! ### Lines without lexemes -/

theorem mem_gaps_of_blanks {blanks comment : List Char}
    (hblanks : blanks ∈ (oneOf [(' ', ' '), ('\t', '\t'), ('\x0c', '\x0c')])∗)
    (hcomment : comment ∈ 1 + exactly "#" * (noneOf ['\r', '\n'])∗) : blanks ++ comment ∈ gaps := by
  have hparts : (oneOf [(' ', ' '), ('\t', '\t'), ('\x0c', '\x0c')])∗ ≤ gaps := kstar_mono le_sup_left
  have hparts : blanks ∈ gaps := hparts hblanks
  have hcomment : comment ∈ gaps := by
    rcases hcomment with rfl | hcomment
    · exact Language.nil_mem_kstar _
    · have hpart : gapParts ≤ gaps := le_kstar
      exact hpart (Or.inr hcomment)
  have hwhole := Language.append_mem_mul hparts hcomment
  rwa [gaps, kstar_mul_kstar] at hwhole

/-- A line without lexemes is a gap and a line break. -/
theorem exists_gap_of_mem_blankLines {line : List Char} (h : line ∈ blankLines) :
    ∃ g ∈ gaps, ∃ ending ∈ lineBreaks, line = g ++ ending := by
  obtain ⟨_, ⟨blanks, hblanks, comment, hcomment, rfl⟩, ending, hending, rfl⟩ := h
  exact ⟨_, mem_gaps_of_blanks hblanks hcomment, ending, hending, rfl⟩

/-- It holds one line feed, at its end. -/
theorem exists_part_of_mem_blankLines {line : List Char} (h : line ∈ blankLines) :
    ∃ part, line = part ++ ['\n'] ∧ '\n' ∉ part := by
  obtain ⟨g, hg, ending, hending, rfl⟩ := exists_gap_of_mem_blankLines h
  have hnone : '\n' ∉ g := by
    intro hnewline
    cases endsLine_of_mem_gaps hg _ hnewline
  rcases mem_lineBreaks.mp hending with rfl | rfl
  · exact ⟨g, rfl, hnone⟩
  · exact ⟨g ++ ['\r'], by simp, by simp [hnone]⟩

/-- The gap in front of a line break ends there. -/
theorem gap_append_of_endsLine {g : List Char} (hg : g ∈ gaps) {c : Char} (hc : endsLine c = true)
    (behind : List Char) : gap (g ++ c :: behind) = g := by
  obtain ⟨more, hmore⟩ := isPrefix_gap hg (List.prefix_append g (c :: behind))
  have hprefix := gap_isPrefix (g ++ c :: behind)
  rw [← hmore, List.prefix_append_right_inj] at hprefix
  cases more with
  | nil => rw [← hmore, List.append_nil]
  | cons d more =>
      obtain ⟨rfl, -⟩ := List.cons_prefix_cons.mp hprefix
      have hinside := endsLine_of_mem_gaps (gap_mem (g ++ d :: behind)) d (hmore ▸ by simp)
      simp [hc] at hinside

theorem lexeme?_lineBreak {ending : List Char} (h : ending ∈ lineBreaks) (behind : List Char) :
    lexeme? (ending ++ behind) = some (.lineBreak, ending) := by
  rcases mem_lineBreaks.mp h with rfl | rfl
  · exact (Lexeme.lineFeed rfl).lexeme?_eq
  · exact (Lexeme.carriageReturn rfl rfl).lexeme?_eq

end Vocabulary

/-- A text that is empty or ends with a line feed. -/
def WholeLines (cs : List Char) : Prop := cs = [] ∨ ∃ front, cs = front ++ ['\n']

theorem WholeLines.of_isSuffix {cs part : List Char} (h : WholeLines cs) (hpart : part <:+ cs) : WholeLines part := by
  rcases h with rfl | ⟨front, rfl⟩
  · exact Or.inl (List.suffix_nil.mp hpart)
  · rcases List.suffix_concat_iff.mp hpart with rfl | ⟨part, rfl, -⟩
    · exact Or.inl rfl
    · exact Or.inr ⟨part, rfl⟩

theorem WholeLines.newline_mem {cs : List Char} (h : WholeLines cs) (hne : cs ≠ []) : '\n' ∈ cs := by
  obtain ⟨front, rfl⟩ := h.resolve_left hne
  simp

theorem WholeLines.column_eq_zero {cs : List Char} (h : WholeLines cs) {p : Position} (hp : p.column = 0) :
    (p.advance cs).column = 0 := by
  rcases h with rfl | ⟨front, rfl⟩
  · exact hp
  · exact Position.advance_line_feed_column p front

namespace Scanner

open TokenSource

variable {s : Scanner}

/-! ### More text behind -/

/-- The scanner of a text with more behind it. -/
def extend (s : Scanner) (behind : List Char) : Scanner := ⟨s.rest ++ behind, s.position⟩

theorem skip_extend {part : List Char} (h : part <+: s.rest) (behind : List Char) :
    (s.extend behind).skip part = (s.skip part).extend behind := by
  simp [skip, extend, List.drop_append_of_le_length h.length_le]

theorem newline_mem_skipGap (h : '\n' ∈ s.rest) : '\n' ∈ s.skipGap.rest := by
  rw [s.rest_eq_gap_append] at h
  exact (List.mem_append.mp h).resolve_left (Vocabulary.newline_notMem_gap s.rest)

theorem read_extend (h : '\n' ∈ s.rest) (behind : List Char) :
    (s.extend behind).read = (s.read.1, s.read.2.extend behind) := by
  have hlexeme : Vocabulary.lexeme? (s.extend behind).rest = _ := Vocabulary.lexeme?_append h behind
  have hne : s.rest ≠ [] := List.ne_nil_of_mem h
  unfold read
  rw [hlexeme]
  cases hfound : Vocabulary.lexeme? s.rest with
  | some found =>
      obtain ⟨k, w⟩ := found
      exact Prod.ext rfl (skip_extend (Vocabulary.isLongest_of_lexeme? hfound).isPrefix behind)
  | none =>
      have hstray : Vocabulary.stray (s.extend behind).rest = _ := Vocabulary.stray_append h behind hfound
      have hskip := skip_extend (Vocabulary.stray_isPrefix s.rest) behind
      simp [hstray, hskip, hne]
      simp [extend, hne]

/-- Up to a line feed the scanner goes the same way whatever stands behind. -/
theorem pull_extend (h : '\n' ∈ s.rest) (behind : List Char) :
    (s.extend behind).pull = (s.pull.1, s.pull.2.extend behind) := by
  have hgap : (s.extend behind).skipGap = s.skipGap.extend behind := by
    have hsame : Vocabulary.gap (s.extend behind).rest = _ := Vocabulary.gap_append h behind
    rw [skipGap, hsame, skip_extend (Vocabulary.gap_isPrefix s.rest), skipGap]
  rw [pull, hgap, read_extend (newline_mem_skipGap h), pull]

/-! ### What a pull takes -/

/-- A pull takes some of a text that is left behind the gap, and takes a line feed as the end of a line break
alone. -/
theorem exists_skip_of_pull (s : Scanner) :
    ∃ part, part <+: s.skipGap.rest ∧ s.pull.2 = s.skipGap.skip part ∧
      ('\n' ∈ part → ∃ lb, s.pull.1 = .ok lb ∧ lb.kind = .lineBreak) ∧
      (s.skipGap.rest ≠ [] → part ≠ [] ∧ ∀ t, s.pull.1 = .ok t → t.isEnd = false) := by
  rcases s.pull_cases with ⟨k, w, hlexeme, hpull⟩ | ⟨hrest, hpull⟩ | ⟨hrest, hlexeme, hpull⟩
  · refine ⟨w, (Vocabulary.isLongest_of_lexeme? hlexeme).isPrefix, by rw [hpull], ?_, ?_⟩
    · intro hnewline
      rcases Vocabulary.lexeme?_line hlexeme with ⟨rfl, -⟩ | ⟨-, hnone⟩
      · exact ⟨_, by rw [hpull], rfl⟩
      · exact absurd hnewline hnone
    · rw [hpull]
      rintro -
      refine ⟨(Vocabulary.lexeme?_spec hlexeme).2.1, fun t ht => ?_⟩
      obtain rfl := Except.ok.inj ht
      exact isEnd_tokenAt hlexeme
  · exact ⟨[], List.nil_prefix, by simp [hpull, skip], by simp, by simp [hrest]⟩
  · refine ⟨_, Vocabulary.stray_isPrefix _, by rw [hpull], ?_, ?_⟩
    · exact fun hnewline => absurd hnewline (Vocabulary.newline_notMem_stray hlexeme)
    · exact fun _ => ⟨Vocabulary.stray_ne_nil hrest, by simp [hpull]⟩

theorem advance_skip {part : List Char} (h : part <+: s.rest) :
    (s.skip part).position.advance (s.skip part).rest = s.position.advance s.rest := by
  have hrest : part ++ (s.skip part).rest = s.rest := List.prefix_iff_eq_append.mp h
  rw [← hrest, Position.advance_append]
  rfl

/-- Pulls take a text from its front, and the position counts what they take. -/
theorem pull_rest (s : Scanner) :
    s.pull.2.rest <:+ s.rest ∧ s.pull.2.position.advance s.pull.2.rest = s.position.advance s.rest := by
  obtain ⟨part, hpart, hpull, -⟩ := s.exists_skip_of_pull
  rw [hpull]
  refine ⟨(List.drop_suffix _ _).trans (List.drop_suffix _ _), ?_⟩
  rw [advance_skip hpart]
  exact advance_skip (Vocabulary.gap_isPrefix s.rest)

theorem length_rest_pull_lt (h : '\n' ∈ s.rest) : s.pull.2.rest.length < s.rest.length := by
  obtain ⟨part, hpart, hpull, -, hsome⟩ := s.exists_skip_of_pull
  have hlength : s.skipGap.rest.length ≤ s.rest.length := by simp [skipGap, skip]
  have hpos := List.length_pos_of_ne_nil (hsome (List.ne_nil_of_mem (newline_mem_skipGap h))).1
  have hle := hpart.length_le
  rw [hpull, skip, List.length_drop]
  omega

/-- The pull that takes the last line feed of a text answers with a line break. -/
theorem lineBreak_of_pull (h : '\n' ∈ s.rest) (hrest : s.pull.2.rest = []) :
    ∃ lb, s.pull.1 = .ok lb ∧ lb.kind = .lineBreak := by
  obtain ⟨part, hpart, hpull, hbreak, -⟩ := s.exists_skip_of_pull
  have hwhole : part ++ (s.skipGap.skip part).rest = s.skipGap.rest := List.prefix_iff_eq_append.mp hpart
  rw [← hpull, hrest, List.append_nil] at hwhole
  exact hbreak (hwhole ▸ newline_mem_skipGap h)

theorem isEnd_eq_false_of_pull (h : '\n' ∈ s.rest) {t : Token} (ht : s.pull.1 = .ok t) : t.isEnd = false := by
  obtain ⟨part, -, -, -, hsome⟩ := s.exists_skip_of_pull
  exact (hsome (List.ne_nil_of_mem (newline_mem_skipGap h))).2 t ht

/-! ### Whole lines -/

/-- Whole lines are scanned up to their last line break, to the same replies whatever stands behind them. -/
theorem exists_replies_of_wholeLines {above : List Char} (h : WholeLines above) (p : Position) :
    ∃ rs : List Reply, (∀ t, .ok t ∈ rs → t.isEnd = false) ∧
      (above = [] ∧ rs = [] ∨ ∃ before lb, rs = before ++ [.ok lb] ∧ lb.kind = .lineBreak) ∧
      ∀ behind, replies rs.length (Scanner.mk (above ++ behind) p) = rs ∧
        after rs.length (Scanner.mk (above ++ behind) p) = ⟨behind, p.advance above⟩ := by
  induction hn : above.length using Nat.strong_induction_on generalizing above p with
  | _ n ih =>
      subst hn
      by_cases hnil : above = []
      · subst hnil
        exact ⟨[], by simp, Or.inl ⟨rfl, rfl⟩, fun behind => ⟨rfl, rfl⟩⟩
      · let s : Scanner := ⟨above, p⟩
        have hnewline : '\n' ∈ s.rest := h.newline_mem hnil
        obtain ⟨hsuffix, hadvance⟩ := s.pull_rest
        obtain ⟨rs, hend, hlast, hscan⟩ := ih s.pull.2.rest.length (length_rest_pull_lt hnewline)
          (h.of_isSuffix hsuffix) s.pull.2.position rfl
        refine ⟨s.pull.1 :: rs, ?_, Or.inr ?_, fun behind => ?_⟩
        · intro t ht
          rcases List.mem_cons.mp ht with ht | ht
          · exact isEnd_eq_false_of_pull hnewline ht.symm
          · exact hend t ht
        · rcases hlast with ⟨hrest, rfl⟩ | ⟨before, lb, rfl, hk⟩
          · obtain ⟨lb, hlb, hk⟩ := lineBreak_of_pull hnewline hrest
            exact ⟨[], lb, by rw [hlb, List.nil_append], hk⟩
          · exact ⟨s.pull.1 :: before, lb, rfl, hk⟩
        · have hpull : TokenSource.pull (Scanner.mk (above ++ behind) p) = _ := pull_extend hnewline behind
          obtain ⟨hreplies, hafter⟩ := hscan behind
          rw [List.length_cons, replies, after, hpull]
          exact ⟨congrArg (s.pull.1 :: ·) hreplies, hafter.trans (by rw [hadvance])⟩

end Scanner

/-! ### Further down -/

namespace Position

variable {lines bytes : ℕ}

/-- The same column some lines and bytes further down. -/
def moved (lines bytes : ℕ) (p : Position) : Position := ⟨p.line + lines, p.column, p.offset + bytes⟩

theorem step_moved (p : Position) (c : Char) : (p.moved lines bytes).step c = (p.step c).moved lines bytes := by
  unfold step
  split <;> simp [moved, Nat.add_right_comm]

theorem advance_moved (p : Position) (cs : List Char) :
    (p.moved lines bytes).advance cs = (p.advance cs).moved lines bytes := by
  induction cs generalizing p with
  | nil => rfl
  | cons c cs ih => rw [advance_cons, advance_cons, step_moved, ih]

/-- Behind a whole line the column is the same, but the line is the next one. -/
theorem advance_eq_moved {part : List Char} (hpart : '\n' ∉ part) {p : Position} (hp : p.column = 0) :
    p.advance (part ++ ['\n']) = p.moved 1 (String.utf8Len (part ++ ['\n'])) := by
  have hcount : (part ++ ['\n']).count '\n' = 1 := by simp [List.count_eq_zero_of_not_mem hpart]
  have hline := advance_line p (part ++ ['\n'])
  have hcolumn := advance_line_feed_column p part
  have hoffset := advance_offset p (part ++ ['\n'])
  rw [hcount] at hline
  rw [← hp] at hcolumn
  rw [moved, ← hline, ← hcolumn, ← hoffset]

end Position

namespace Scanner

variable {lines bytes : ℕ}

/-- The same text some lines and bytes further down. -/
def moved (lines bytes : ℕ) (s : Scanner) : Scanner := ⟨s.rest, s.position.moved lines bytes⟩

theorem skip_moved (s : Scanner) (part : List Char) :
    (s.moved lines bytes).skip part = (s.skip part).moved lines bytes := by
  simp [skip, moved, Position.advance_moved]

theorem tokenAt_moved (s : Scanner) (k : TokenKind) (w : List Char) :
    (s.moved lines bytes).tokenAt k w = (s.tokenAt k w).relabel (.moved lines bytes) := by
  rw [tokenAt, moved, Position.advance_moved]
  rfl

theorem read_moved (s : Scanner) :
    (s.moved lines bytes).read =
      (s.read.1.relabel (.moved lines bytes) (LexError.relabel (.moved lines bytes)),
        s.read.2.moved lines bytes) := by
  have hrest : (s.moved lines bytes).rest = s.rest := rfl
  unfold read
  rw [hrest]
  split
  · rw [tokenAt_moved, skip_moved]
    rfl
  · split
    · rfl
    · simp only [skip_moved]
      rfl

theorem pull_moved (s : Scanner) :
    (s.moved lines bytes).pull =
      (s.pull.1.relabel (.moved lines bytes) (LexError.relabel (.moved lines bytes)),
        s.pull.2.moved lines bytes) := by
  have hgap : (s.moved lines bytes).skipGap = s.skipGap.moved lines bytes := s.skip_moved _
  rw [pull, hgap, read_moved, pull]

open TokenSource in
theorem relabels_moved (s : Scanner) :
    Relabels (.moved lines bytes) (LexError.relabel (.moved lines bytes)) (s.moved lines bytes) s := by
  intro n
  induction n generalizing s with
  | zero => rfl
  | succ n ih =>
      have hpull : TokenSource.pull (s.moved lines bytes) = _ := s.pull_moved
      rw [replies, replies, hpull, List.map_cons, ih s.pull.2]
      rfl

/-- A line with nothing but a gap on it is scanned to its line break, and what stands behind it is scanned one
line further down. -/
theorem exists_pull_of_blankLine {line : List Char} (h : line ∈ Vocabulary.blankLines) {p : Position}
    (hp : p.column = 0) :
    ∃ lb : Token, lb.kind = .lineBreak ∧ ∀ behind,
      (Scanner.mk (line ++ behind) p).pull = (.ok lb, (Scanner.mk behind p).moved 1 (String.utf8Len line)) := by
  obtain ⟨part, hpart, hnone⟩ := Vocabulary.exists_part_of_mem_blankLines h
  have hmoved : p.advance line = p.moved 1 (String.utf8Len line) := hpart ▸ Position.advance_eq_moved hnone hp
  obtain ⟨g, hg, ending, hending, rfl⟩ := Vocabulary.exists_gap_of_mem_blankLines h
  rw [Position.advance_append] at hmoved
  refine ⟨(Scanner.mk [] (p.advance g)).tokenAt .lineBreak ending, rfl, fun behind => ?_⟩
  have hgap : Vocabulary.gap (g ++ ending ++ behind) = g := by
    rcases Vocabulary.mem_lineBreaks.mp hending with rfl | rfl
    all_goals
      rw [List.append_assoc]
      exact Vocabulary.gap_append_of_endsLine hg rfl _
  have hskip : (Scanner.mk (g ++ ending ++ behind) p).skipGap = ⟨ending ++ behind, p.advance g⟩ := by
    rw [skipGap, hgap, skip, List.append_assoc, List.drop_left]
  rw [pull, hskip, read, Vocabulary.lexeme?_lineBreak hending]
  simp only [moved, ← hmoved, skip, List.drop_left]
  rfl

end Scanner

end LayoutRule
