import LayoutRule.Proofs.Scanner.Places

/-! # Accounting for a text

The replies of a scanner are about stretches that follow each other through the text. Between the lexemes of a
text that is scanned to its end there are only gaps, and nothing of the text is left out. -/

namespace LayoutRule

namespace Scanner

variable {text : String} {above current : List Char} {s : Scanner}

/-! ### Runs -/

open TokenSource in
/-- Each scanner of a run stands somewhere in the text, and the mark moves along with it. -/
theorem Stands.after (h : s.Stands text above current) (n : ℕ) :
    ∃ above' current', (after n s).Stands text above' current' ∧
      (replies n s).foldl LineMark.behind (.below above) = .below above' := by
  induction n generalizing s above current with
  | zero => exact ⟨above, current, h, rfl⟩
  | succ n ih =>
      obtain ⟨-, -, above', current', hnext, hmark⟩ := h.pull
      obtain ⟨above'', current'', hlater, hmarks⟩ := ih hnext
      refine ⟨above'', current'', hlater, ?_⟩
      have hmark : (LineMark.below above).behind (TokenSource.pull s).1 = .below above' := hmark
      rw [replies, List.foldl_cons, hmark]
      exact hmarks

theorem skipGap_of_rest_eq_nil (h : s.rest = []) : s.skipGap = s := by
  rw [skipGap, h]
  rfl

/-- Behind the end token the scanner stays where it is. -/
theorem pull_pull_of_isEnd {t : Token} (h : s.pull.1 = .ok t) (ht : t.isEnd = true) :
    s.pull.2.pull = s.pull := by
  rcases s.pull_cases with ⟨k, w, hlexeme, hpull⟩ | ⟨hrest, hpull⟩ | ⟨-, -, hpull⟩
  · rw [hpull] at h
    obtain rfl := Except.ok.inj h
    simp [isEnd_tokenAt hlexeme] at ht
  · calc s.pull.2.pull = s.skipGap.skipGap.read := by rw [hpull]; rfl
      _ = s.skipGap.read := by rw [skipGap_of_rest_eq_nil hrest]
      _ = s.pull := rfl
  · simp [hpull] at h

open TokenSource in
theorem pull_after_of_isEnd {t : Token} (h : s.pull.1 = .ok t) (ht : t.isEnd = true) (n : ℕ) :
    (after n s).pull = s.pull := by
  induction n generalizing s with
  | zero => rfl
  | succ n ih =>
      have hnext := pull_pull_of_isEnd h ht
      exact (ih ((congrArg Prod.fst hnext).trans h)).trans hnext

end Scanner

/-! ### Gaps and lexemes -/

/-- What a token takes of the text: the end token takes nothing. -/
def Token.lexeme (t : Token) : String :=
  if t.isEnd then "" else t.text

/-- The stretches in front of the tokens, each from the end of the token before it. -/
def gapSpans : ℕ → List Token → List Span
  | _, [] => []
  | offset, t :: ts => ⟨offset, t.span.start⟩ :: gapSpans t.span.stop ts

namespace Scanner

variable {text : String} {above current : List Char} {s : Scanner}

/-- A token takes its lexeme from the text that is left, behind the gap. -/
theorem rest_eq_of_pull {t : Token} (h : s.pull.1 = .ok t) :
    t.span = s.nextSpan ∧ s.rest = Vocabulary.gap s.rest ++ t.lexeme.toList ++ s.pull.2.rest ∧
      (t.isEnd = true → s.pull.2.rest = []) := by
  have hgap := s.rest_eq_gap_append
  rw [nextSpan]
  rcases s.pull_cases with ⟨k, w, hlexeme, hpull⟩ | ⟨hrest, hpull⟩ | ⟨-, -, hpull⟩
  · rw [hpull] at h ⊢
    obtain rfl := Except.ok.inj h
    have hend := isEnd_tokenAt (s := s.skipGap) hlexeme
    have hrest : w ++ (s.skipGap.skip w).rest = s.skipGap.rest :=
      List.prefix_iff_eq_append.mp (Vocabulary.isLongest_of_lexeme? hlexeme).isPrefix
    refine ⟨rfl, ?_, by simp [hend]⟩
    rw [Token.lexeme, hend, List.append_assoc]
    simpa [tokenAt, hrest] using hgap
  · rw [hpull] at h ⊢
    obtain rfl := Except.ok.inj h
    refine ⟨rfl, ?_, fun _ => hrest⟩
    simpa [Token.lexeme, endToken] using hgap
  · simp [hpull] at h

/-- The stretch in front of the next token is the gap. -/
theorem Stands.slice_gap (h : s.Stands text above current) {t : Token} (ht : t.span = s.nextSpan) :
    (Span.mk s.position.offset t.span.start).Within text ∧
      ((Span.mk s.position.offset t.span.start).slice text).toList ∈ Vocabulary.gaps ∧
      (Span.mk s.position.offset t.span.start).slice text = String.ofList (Vocabulary.gap s.rest) := by
  obtain ⟨hwithin, hslice⟩ := h.slice_skip (Vocabulary.gap_isPrefix s.rest)
  have hmem : (String.ofList (Vocabulary.gap s.rest)).toList ∈ Vocabulary.gaps := by
    rw [String.toList_ofList]
    exact Vocabulary.gap_mem s.rest
  rw [ht]
  exact ⟨hwithin, hslice ▸ hmem, hslice⟩

open TokenSource in
/-- Gaps and lexemes of a reading, put together, are the text that was left at its start. -/
theorem Stands.reads {ts : List Token} {r : Reply} {s' : Scanner} {t : Token}
    (h : s.Stands text above current) (hreads : Reads s ts r s') (hr : r = .ok t) :
    (∀ gap ∈ gapSpans s.position.offset (ts ++ [t]),
        gap.Within text ∧ (gap.slice text).toList ∈ Vocabulary.gaps) ∧
      String.ofList s.rest = String.join (List.zipWith (fun gap t => gap.slice text ++ t.lexeme)
        (gapSpans s.position.offset (ts ++ [t])) (ts ++ [t])) := by
  induction hreads generalizing above current with
  | @stop s r s' hp hstops =>
      subst hr
      have hpull : s.pull = (.ok t, s') := hp
      obtain ⟨hspan, hrest, hend⟩ := s.rest_eq_of_pull (congrArg Prod.fst hpull)
      obtain ⟨hwithin, hmem, hslice⟩ := h.slice_gap hspan
      rw [hend hstops, List.append_nil] at hrest
      refine ⟨by simpa [gapSpans] using ⟨hwithin, hmem⟩, ?_⟩
      rw [hrest, String.ofList_append, String.ofList_toList, ← hslice]
      simp [gapSpans, String.join_cons]
  | @token s u s' ts r s'' hp _ _ ih =>
      have hpull : s.pull = (.ok u, s') := hp
      obtain ⟨hspan, hrest, -⟩ := s.rest_eq_of_pull (congrArg Prod.fst hpull)
      obtain ⟨hwithin, hmem, hslice⟩ := h.slice_gap hspan
      obtain ⟨-, -, above', current', hnext, -⟩ := h.pull
      rw [nextSpan] at hspan
      rw [hpull] at hrest hnext hspan
      obtain ⟨hgaps, hjoin⟩ := ih hnext hr
      have hstop : u.span.stop = s'.position.offset := by rw [hspan]
      simp only [List.cons_append, gapSpans, hstop, List.zipWith_cons_cons, String.join_cons, ← hjoin]
      refine ⟨List.forall_mem_cons.mpr ⟨⟨hwithin, hmem⟩, hgaps⟩, ?_⟩
      calc String.ofList s.rest
          = String.ofList (Vocabulary.gap s.rest ++ u.lexeme.toList ++ s'.rest) := congrArg _ hrest
        _ = _ := by rw [String.ofList_append, String.ofList_append, String.ofList_toList, hslice]

/-! ### Distinct tokens -/

theorem offset_le_skipGap (s : Scanner) : s.position.offset ≤ s.skipGap.position.offset := by
  rw [skipGap, skip, Position.advance_offset]
  exact Nat.le_add_right _ _

/-- A token begins where the scanner stands or behind, and all but the end token take the scanner on. -/
theorem start_of_pull {t : Token} {s' : Scanner} (h : s.pull = (.ok t, s')) :
    s.position.offset ≤ t.span.start ∧ (t.isEnd = false → t.span.start < s'.position.offset) := by
  have hgap := s.offset_le_skipGap
  rcases s.pull_cases with ⟨k, w, hlexeme, hpull⟩ | ⟨-, hpull⟩ | ⟨-, -, hpull⟩
  · rw [h, Prod.mk.injEq, Except.ok.injEq] at hpull
    obtain ⟨rfl, rfl⟩ := hpull
    exact ⟨hgap, fun _ => offset_lt_skip (Vocabulary.lexeme?_spec hlexeme).2.1⟩
  · rw [h, Prod.mk.injEq, Except.ok.injEq] at hpull
    obtain ⟨rfl, rfl⟩ := hpull
    exact ⟨hgap, fun hend => by cases hend⟩
  · simp [h] at hpull

open TokenSource in
/-- Each token of a reading begins behind those before it. -/
theorem pairwise_start_of_reads {ts : List Token} {r : Reply} {s' : Scanner} {t : Token}
    (h : Reads s ts r s') (hr : r = .ok t) :
    (∀ u ∈ ts ++ [t], s.position.offset ≤ u.span.start) ∧
      (ts ++ [t]).Pairwise fun u v => u.span.start < v.span.start := by
  induction h with
  | stop hp =>
      subst hr
      simpa using (start_of_pull hp).1
  | token hp hu _ ih =>
      obtain ⟨hlater, hpairwise⟩ := ih hr
      obtain ⟨hstart, hon⟩ := start_of_pull hp
      have hon := hon hu
      refine ⟨?_, List.pairwise_cons.mpr ⟨fun v hv => hon.trans_le (hlater v hv), hpairwise⟩⟩
      intro v hv
      rcases List.mem_cons.mp hv with rfl | hv
      · exact hstart
      · exact (hstart.trans hon.le).trans (hlater v hv)

/-! ### Texts of tokens -/

theorem newline_notMem_of_pull {t : Token} (h : s.pull.1 = .ok t) (hk : t.kind.isOrdinary = true) :
    '\n' ∉ t.text.toList := by
  rcases s.pull_cases with ⟨k, w, hlexeme, hpull⟩ | ⟨-, hpull⟩ | ⟨-, -, hpull⟩
  · rw [hpull] at h
    obtain rfl := Except.ok.inj h
    rcases Vocabulary.lexeme?_line hlexeme with ⟨rfl, -⟩ | ⟨-, hnone⟩
    · cases hk
    · rwa [tokenAt, String.toList_ofList]
  · rw [hpull] at h
    obtain rfl := Except.ok.inj h
    cases hk
  · simp [hpull] at h

open TokenSource in
/-- What stands in a statement stands on one line. -/
theorem newline_notMem_of_reads {ts : List Token} {r : Reply} {s' : Scanner} {t : Token} (h : Reads s ts r s')
    (hr : r = .ok t) : ∀ u ∈ ts ++ [t], u.kind.isOrdinary = true → '\n' ∉ u.text.toList := by
  induction h with
  | @stop s r s' hp _ =>
      subst hr
      have hpull : s.pull = (.ok t, s') := hp
      simpa using newline_notMem_of_pull (congrArg Prod.fst hpull)
  | @token s u s' ts r s'' hp _ _ ih =>
      have hpull : s.pull = (.ok u, s') := hp
      exact List.forall_mem_cons.mpr ⟨newline_notMem_of_pull (congrArg Prod.fst hpull), ih hr⟩

/-! ### The replies of a text -/

/-- The reply to the pull behind `n` others. -/
def replyAt (text : String) (n : ℕ) : Reply := (TokenSource.pull (TokenSource.after n (ofText text))).1

/-- The stretch that the reply is about. -/
def spanAt (text : String) (n : ℕ) : Span := (TokenSource.after n (ofText text)).nextSpan

/-- The mark that the replies before leave. -/
def markAt (text : String) (n : ℕ) : LineMark :=
  (TokenSource.replies n (ofText text)).foldl LineMark.behind .first

theorem stop_spanAt_le_start (text : String) (n : ℕ) :
    (spanAt text n).stop ≤ (spanAt text (n + 1)).start := by
  have hafter : TokenSource.after (n + 1) (ofText text) = (TokenSource.after n (ofText text)).pull.2 :=
    TokenSource.after_add n 1 (ofText text)
  rw [spanAt, spanAt, hafter]
  exact offset_le_skipGap _

theorem spanAt_within (text : String) (n : ℕ) : (spanAt text n).Within text := by
  obtain ⟨above, current, hstands, -⟩ := (stands_ofText text).after n
  exact hstands.pull.1

theorem stop_spanAt_le_stop (text : String) (n : ℕ) : (spanAt text n).stop ≤ (spanAt text (n + 1)).stop :=
  (stop_spanAt_le_start text n).trans (spanAt_within text (n + 1)).start_le_stop

/-- Each reply is about a stretch of the text, and its line and its column are those at which the stretch
begins, counted in the text or from the line mark. The stretches go forward without an overlap, and the end
token is repeated for ever. Where the whole text is scanned, there are only blanks and comments between the
tokens, and with the lexemes they make up the text. -/
theorem replies_account_for_text (text : String) :
    (∀ n, (spanAt text n).Within text ∧ About text (markAt text n) (spanAt text n) (replyAt text n)) ∧
      (∀ m n, m < n → (spanAt text m).stop ≤ (spanAt text n).start) ∧
      (∀ m n t, m ≤ n → replyAt text m = .ok t → t.isEnd = true → replyAt text n = .ok t) ∧
      ∀ tokens, tokenize text = .ok tokens →
        (∀ gap ∈ gapSpans 0 tokens, gap.Within text ∧ (gap.slice text).toList ∈ Vocabulary.gaps) ∧
          text = String.join
            (List.zipWith (fun gap t => gap.slice text ++ t.lexeme) (gapSpans 0 tokens) tokens) := by
  refine ⟨?_, ?_, ?_, ?_⟩
  · intro n
    obtain ⟨above, current, hstands, hmark⟩ := (stands_ofText text).after n
    obtain ⟨hwithin, habout, -⟩ := hstands.pull
    exact ⟨hwithin, by rw [markAt]; exact hmark ▸ habout⟩
  · intro m n hmn
    obtain ⟨k, rfl⟩ := Nat.exists_eq_add_of_lt hmn
    exact (monotone_nat_of_le_succ (stop_spanAt_le_stop text) (Nat.le_add_right m k)).trans
      (stop_spanAt_le_start text (m + k))
  · intro m n t hmn hreply ht
    obtain ⟨k, rfl⟩ := Nat.exists_eq_add_of_le hmn
    rw [replyAt, TokenSource.after_add]
    exact (congrArg Prod.fst (pull_after_of_isEnd hreply ht k)).trans hreply
  · intro tokens htokens
    obtain ⟨ts, t, s', hreads, rfl⟩ := exists_reads_of_tokenize htokens
    have hjoin := (stands_ofText text).reads hreads rfl
    rwa [ofText, String.ofList_toList] at hjoin

end Scanner

end LayoutRule
