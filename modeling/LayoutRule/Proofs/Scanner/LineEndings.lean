import LayoutRule.Proofs.Scanner.WholeLines

/-! # Line endings

A text without carriage returns can be written with one in front of each line feed. The scanner makes the same of
both: gaps end in front of either character, no word takes one of them, and a string that takes the carriage return
behind a backslash does not end on that line. -/

namespace LayoutRule

open TokenSource
open String (utf8Len)

/-- Puts a carriage return in front of each line feed. -/
def crlf : List Char → List Char
  | [] => []
  | c :: cs => if c = '\n' then '\r' :: '\n' :: crlf cs else c :: crlf cs

@[simp] theorem crlf_nil : crlf [] = [] := rfl

@[simp] theorem crlf_newline (cs : List Char) : crlf ('\n' :: cs) = '\r' :: '\n' :: crlf cs := rfl

theorem crlf_cons {c : Char} (hc : c ≠ '\n') (cs : List Char) : crlf (c :: cs) = c :: crlf cs := if_neg hc

theorem crlf_append (cs ds : List Char) : crlf (cs ++ ds) = crlf cs ++ crlf ds := by
  fun_induction crlf cs with
  | case1 => rfl
  | case2 cs ih => rw [List.cons_append, crlf_newline, ih, List.cons_append, List.cons_append]
  | case3 c cs hc ih => rw [List.cons_append, crlf_cons hc, ih, List.cons_append]

theorem crlf_of_notMem {cs : List Char} (h : '\n' ∉ cs) : crlf cs = cs := by
  induction cs with
  | nil => rfl
  | cons c cs ih =>
      obtain ⟨hc, hcs⟩ := List.ne_and_not_mem_of_not_mem_cons h
      rw [crlf_cons (Ne.symm hc), ih hcs]

theorem crlf_eq_nil_iff {cs : List Char} : crlf cs = [] ↔ cs = [] := by
  fun_cases crlf cs <;> simp

theorem count_crlf (cs : List Char) : (crlf cs).count '\n' = cs.count '\n' := by
  fun_induction crlf cs with
  | case1 => rfl
  | case2 cs ih => simp [ih]
  | case3 c cs hc ih => rw [List.count_cons, List.count_cons, ih]

theorem utf8Len_crlf (cs : List Char) : utf8Len (crlf cs) = utf8Len cs + cs.count '\n' := by
  fun_induction crlf cs with
  | case1 => rfl
  | case2 cs ih =>
      have hreturn : '\r'.utf8Size = 1 := rfl
      simp only [String.utf8Len_cons, ih, hreturn, List.count_cons_self]
      omega
  | case3 c cs hc ih =>
      rw [String.utf8Len_cons, ih, String.utf8Len_cons, List.count_cons_of_ne hc]
      omega

/-- A carriage return in the other text is followed by a line feed, so what holds no line feed and ends with no
carriage return stands in front of both texts or of none. -/
theorem isPrefix_crlf_iff {w : List Char} (hline : '\n' ∉ w) (hlast : w.getLast? ≠ some '\r') (cs : List Char) :
    w <+: crlf cs ↔ w <+: cs := by
  fun_induction crlf cs generalizing w with
  | case1 => rfl
  | case2 cs =>
      refine ⟨fun h => ?_, fun h => ?_⟩
      · rcases List.prefix_cons_iff.mp h with rfl | ⟨w, rfl, hbehind⟩
        · exact List.nil_prefix
        · rcases List.prefix_cons_iff.mp hbehind with rfl | ⟨w, rfl, -⟩
          · exact absurd rfl hlast
          · simp at hline
      · rcases List.prefix_cons_iff.mp h with rfl | ⟨w, rfl, -⟩
        · exact List.nil_prefix
        · simp at hline
  | case3 c cs hc ih =>
      cases w with
      | nil => simp
      | cons d w =>
          have hline := (List.ne_and_not_mem_of_not_mem_cons hline).2
          have hlast : w.getLast? ≠ some '\r' := by
            cases w with
            | nil => simp
            | cons e w => simpa using hlast
          rw [List.cons_prefix_cons, List.cons_prefix_cons, ih hline hlast]

namespace Vocabulary

variable {cs w : List Char}

/-! ### Gaps and words in front of a text -/

theorem gap_crlf (cs : List Char) : gap (crlf cs) = gap cs := by
  refine gap_congr fun w hw => isPrefix_crlf_iff (fun hline => ?_) (fun hlast => ?_) cs
  · cases endsLine_of_mem_gaps hw _ hline
  · cases endsLine_of_mem_gaps hw _ (List.mem_of_getLast? hlast)

/-- A string ends with its quote, and outside of strings no word but a line break holds a carriage return. -/
theorem Lexeme.getLast?_ne {c : Char} {k : TokenKind} (h : Lexeme c cs k w) (hk : k ≠ .lineBreak) :
    w.getLast? ≠ some '\r' := by
  intro hlast
  have hmem := List.mem_of_getLast? hlast
  cases h with
  | word h =>
      rcases List.mem_cons.mp hmem with rfl | hmem
      · cases h
      · cases List.mem_takeWhile_imp hmem
  | number h =>
      rcases List.mem_append.mp hmem with hmem | hmem
      · rcases List.mem_cons.mp hmem with rfl | hmem
        · cases h
        · cases List.mem_takeWhile_imp hmem
      · rcases fraction_eq_nil_or (cs.dropWhile Char.isDigit) with hnone | ⟨part, hpart, hsome⟩
        · simp [hnone] at hmem
        · have hmem : '\r' ∈ part := by simpa [hsome] using hmem
          cases (mem_digits.mp hpart).2 _ hmem
  | string h =>
      rw [← List.cons_append, List.getLast?_concat] at hlast
      obtain rfl := Option.some.inj hlast
      cases h
  | lineFeed => exact hk rfl
  | carriageReturn => exact hk rfl
  | delimiter h => obtain rfl := List.mem_singleton.mp hmem; cases h
  | pair h => simp at hlast
  | operator h => obtain rfl := List.mem_singleton.mp hmem; cases h

/-- In front of anything but a line break the same words stand in both texts. -/
theorem isPrefix_crlf_iff_of_mem_lexemes {c : Char} (hreturn : c ≠ '\r') (hline : c ≠ '\n') (hw : w ∈ lexemes) :
    w <+: crlf (c :: cs) ↔ w <+: c :: cs := by
  obtain ⟨k, hlexeme⟩ := exists_lexeme?_of_mem_lexemes hw
  by_cases hk : k = .lineBreak
  · subst hk
    rw [crlf_cons hline]
    rcases mem_lineBreaks.mp (mem_lineBreaks_of_lexeme? hlexeme) with rfl | rfl
    · simp [Ne.symm hline]
    · simp [Ne.symm hreturn]
  · obtain ⟨-, hnewline⟩ := (lexeme?_line hlexeme).resolve_left fun h => hk h.1
    obtain ⟨d, w, rfl⟩ := List.exists_cons_of_ne_nil (lexeme?_spec hlexeme).1
    exact isPrefix_crlf_iff hnewline ((lexeme_of_lexeme? hlexeme).getLast?_ne hk) (c :: cs)

/-- The lexeme in front of a text is the one in front of the other text, but for a line break. -/
theorem lexeme?_crlf (hcs : '\r' ∉ cs) : lexeme? (crlf cs) = (lexeme? cs).map fun p => (p.1, crlf p.2) := by
  cases cs with
  | nil => rfl
  | cons c cs =>
      obtain ⟨hreturn, -⟩ := List.ne_and_not_mem_of_not_mem_cons hcs
      by_cases hline : c = '\n'
      · subst hline
        have hbreak : lexeme? ('\n' :: cs) = some (.lineBreak, ['\n']) := (Lexeme.lineFeed rfl).lexeme?_eq
        rw [hbreak, crlf_newline]
        exact (Lexeme.carriageReturn rfl rfl).lexeme?_eq
      · have hsame : lexeme? (crlf (c :: cs)) = lexeme? (c :: cs) :=
          lexeme?_congr fun w hw => isPrefix_crlf_iff_of_mem_lexemes (Ne.symm hreturn) hline hw
        rw [hsame]
        cases hfound : lexeme? (c :: cs) with
        | none => rfl
        | some found =>
            obtain ⟨k, w⟩ := found
            have hprefix := (isLongest_of_lexeme? hfound).isPrefix
            rcases lexeme?_line hfound with ⟨rfl, -⟩ | ⟨-, hnewline⟩
            · rcases mem_lineBreaks.mp (mem_lineBreaks_of_lexeme? hfound) with rfl | rfl
              · exact absurd (List.cons_prefix_cons.mp hprefix).1 (Ne.symm hline)
              · exact absurd (List.cons_prefix_cons.mp hprefix).1 hreturn
            · simp [crlf_of_notMem hnewline]

/-- Of the lexemes of a text only line breaks are written another way in the other text. -/
theorem ofList_crlf_of_lexeme? {k : TokenKind} (h : lexeme? cs = some (k, w)) (hcs : '\r' ∉ cs) :
    String.ofList (crlf w) = if k = .lineBreak then "\r\n" else String.ofList w := by
  by_cases hk : k = .lineBreak
  · subst hk
    rcases mem_lineBreaks.mp (mem_lineBreaks_of_lexeme? h) with rfl | rfl
    · rfl
    · exact absurd ((isLongest_of_lexeme? h).isPrefix.subset (by simp)) hcs
  · obtain ⟨-, hnewline⟩ := (lexeme?_line h).resolve_left fun hbreak => hk hbreak.1
    rw [crlf_of_notMem hnewline, if_neg hk]

end Vocabulary

/-! ### Places in both texts -/

/-- The text with a carriage return in front of each line feed. -/
def withCrlf (text : String) : String := String.ofList (crlf text.toList)

/-- An offset of the text, in the other text: further on by one for each line feed in front of it. -/
def crlfOffset (text : String) (offset : ℕ) : ℕ :=
  offset + ((Span.mk 0 offset).slice text).toList.count '\n'

def Span.withCrlf (text : String) (span : Span) : Span :=
  ⟨crlfOffset text span.start, crlfOffset text span.stop⟩

/-- A token of the text, in the other text: a line break has two characters there. -/
def Token.withCrlf (text : String) (t : Token) : Token :=
  { t with text := if t.kind = .lineBreak then "\r\n" else t.text, span := t.span.withCrlf text }

theorem crlfOffset_utf8Len {text : String} {before behind : List Char} (h : text.toList = before ++ behind) :
    crlfOffset text (utf8Len before) = utf8Len (crlf before) := by
  have hwhole : text.toList = [] ++ before ++ behind := h
  have hslice : (Span.mk 0 (utf8Len before)).slice text = String.ofList before := Span.slice_of_toList_eq hwhole
  rw [crlfOffset, hslice, String.toList_ofList, utf8Len_crlf]

namespace Position

theorem advance_crlf_line (p : Position) (cs : List Char) : (p.advance (crlf cs)).line = (p.advance cs).line := by
  rw [advance_line, advance_line, count_crlf]

theorem advance_crlf_column {p p' : Position} (h : p'.column = p.column) (cs : List Char) :
    (p'.advance (crlf cs)).column = (p.advance cs).column := by
  fun_induction crlf cs generalizing p p' with
  | case1 => exact h
  | case2 cs ih => exact ih (by simp [step])
  | case3 c cs hc ih => exact ih (by simp [step, hc, h])

end Position

namespace Scanner

open Position (start advance_crlf_line advance_crlf_column advance_offset)

/-- The scanner that has taken the first characters from the front of a text. -/
def behind (before rest : List Char) : Scanner := ⟨rest, start.advance before⟩

variable {text : String} {before rest : List Char}

theorem skip_behind (before part more : List Char) :
    (behind before (part ++ more)).skip part = behind (before ++ part) more := by
  simp [behind, skip, Position.advance_append]

theorem offset_advance_start (cs : List Char) : (start.advance cs).offset = utf8Len cs := by
  rw [advance_offset, start, Nat.zero_add]

/-- A lexeme is a token at the same place in both texts. -/
theorem tokenAt_crlf {k : TokenKind} {w more : List Char} (htext : text.toList = before ++ (w ++ more))
    (hw : String.ofList (crlf w) = if k = .lineBreak then "\r\n" else String.ofList w) (rest rest' : List Char) :
    (behind (crlf before) rest').tokenAt k (crlf w) = ((behind before rest).tokenAt k w).withCrlf text := by
  have hstart := crlfOffset_utf8Len htext
  have hstop := crlfOffset_utf8Len (htext.trans (List.append_assoc before w more).symm)
  simp only [tokenAt, behind, Token.withCrlf, Span.withCrlf, ← Position.advance_append, ← crlf_append,
    offset_advance_start, hstart, hstop, hw, advance_crlf_line, advance_crlf_column rfl]

theorem endToken_crlf (htext : text.toList = before) :
    (behind (crlf before) []).endToken = ((behind before []).endToken).withCrlf text := by
  have hoffset := crlfOffset_utf8Len (htext.trans (List.append_nil before).symm)
  simp [endToken, Token.endOfInput, behind, Token.withCrlf, Span.withCrlf, offset_advance_start, hoffset,
    advance_crlf_line, advance_crlf_column rfl]

end Scanner

/-- What a reader of both texts gets: a token of the text and the same token of the other text, or an error of
each. -/
inductive Reply.Matches (f : Token → Token) : Reply → Reply → Prop where
  | token (t : Token) : Matches f (.ok t) (.ok (f t))
  | error (e e' : LexError) : Matches f (.error e) (.error e')

namespace Reply.Matches

variable {f : Token → Token} {r r' : Reply}

theorem eq_ok {t : Token} (h : Matches f (.ok t) r') : r' = .ok (f t) := by
  cases h
  rfl

theorem stops (h : Matches f r r') (hf : ∀ t, (f t).kind = t.kind) : r'.stops = r.stops := by
  cases h with
  | token t => simp [Reply.stops, Token.isEnd, hf]
  | error => rfl

end Reply.Matches

namespace Scanner

variable {text : String} {before rest : List Char}

/-- The gap is the same in both texts. -/
theorem skipGap_crlf (before rest : List Char) :
    ∃ before' rest', before ++ rest = before' ++ rest' ∧ (behind before rest).skipGap = behind before' rest' ∧
      (behind (crlf before) (crlf rest)).skipGap = behind (crlf before') (crlf rest') := by
  let g := Vocabulary.gap rest
  have hg : crlf g = g := crlf_of_notMem (Vocabulary.newline_notMem_gap rest)
  obtain ⟨more, hmore⟩ : g <+: rest := Vocabulary.gap_isPrefix rest
  have hrest : crlf rest = g ++ crlf more := by rw [← hmore, crlf_append, hg]
  refine ⟨before ++ g, more, by rw [List.append_assoc, hmore], ?_, ?_⟩
  · calc (behind before rest).skipGap = (behind before (g ++ more)).skip g := by rw [hmore]; rfl
      _ = behind (before ++ g) more := skip_behind before g more
  · calc (behind (crlf before) (crlf rest)).skipGap
        = (behind (crlf before) (crlf rest)).skip (Vocabulary.gap (crlf rest)) := rfl
      _ = (behind (crlf before) (g ++ crlf more)).skip g := by rw [Vocabulary.gap_crlf, hrest]
      _ = behind (crlf before ++ g) (crlf more) := skip_behind _ _ _
      _ = behind (crlf (before ++ g)) (crlf more) := by rw [crlf_append, hg]

/-- At the same place of both texts a scanner replies alike, and goes on to the same place. -/
theorem pull_crlf (htext : text.toList = before ++ rest) (hreturn : '\r' ∉ text.toList) :
    Reply.Matches (Token.withCrlf text) (behind before rest).pull.1 (behind (crlf before) (crlf rest)).pull.1 ∧
      ∀ t, (behind before rest).pull.1 = .ok t → ∃ before' rest', text.toList = before' ++ rest' ∧
        (behind before rest).pull.2 = behind before' rest' ∧
        (behind (crlf before) (crlf rest)).pull.2 = behind (crlf before') (crlf rest') := by
  obtain ⟨before', rest', htaken, hgap, hgap'⟩ := skipGap_crlf before rest
  rw [htaken] at htext
  have hrest : '\r' ∉ rest' := fun h => hreturn (htext ▸ List.mem_append_right before' h)
  have hother := Vocabulary.lexeme?_crlf hrest
  rcases (behind before rest).pull_cases with ⟨k, w, hlexeme, hpull⟩ | ⟨hnil, hpull⟩ | ⟨hne, hlexeme, hpull⟩
  · rw [hgap] at hlexeme hpull
    have hlexeme : Vocabulary.lexeme? rest' = some (k, w) := hlexeme
    have hpull' : (behind (crlf before) (crlf rest)).pull =
        (.ok ((behind (crlf before') (crlf rest')).tokenAt k (crlf w)),
          (behind (crlf before') (crlf rest')).skip (crlf w)) := by
      rw [pull, hgap', read]
      simp [behind, hother, hlexeme]
    obtain ⟨more, rfl⟩ : w <+: rest' := (Vocabulary.isLongest_of_lexeme? hlexeme).isPrefix
    have hw := Vocabulary.ofList_crlf_of_lexeme? hlexeme hrest
    rw [hpull, hpull', tokenAt_crlf htext hw (w ++ more)]
    refine ⟨.token _, fun t _ => ⟨before' ++ w, more, by rw [htext, List.append_assoc], skip_behind _ _ _, ?_⟩⟩
    rw [crlf_append, crlf_append]
    exact skip_behind _ _ _
  · rw [hgap] at hnil hpull
    obtain rfl : rest' = [] := hnil
    have hpull' : (behind (crlf before) (crlf rest)).pull =
        (.ok (behind (crlf before') []).endToken, behind (crlf before') []) := by
      rw [pull, hgap']
      rfl
    rw [hpull, hpull', endToken_crlf (htext.trans (List.append_nil before'))]
    exact ⟨.token _, fun t _ => ⟨before', [], htext, rfl, rfl⟩⟩
  · -- what is refused may be longer in the other text, so the places behind it may differ
    rw [hgap] at hne hlexeme
    have hlexeme : Vocabulary.lexeme? rest' = none := hlexeme
    have hne : crlf rest' ≠ [] := by rwa [Ne, crlf_eq_nil_iff]
    have hpull' : ∃ e, (behind (crlf before) (crlf rest)).pull.1 = .error e := by
      rw [pull, hgap', read]
      simp [behind, hother, hlexeme, hne]
    obtain ⟨e', he'⟩ := hpull'
    rw [hpull, he']
    exact ⟨.error _ _, fun t ht => by cases ht⟩

/-- A reader of the text gets a token from each pull, and a reader of the other text gets the same ones, up to an
error in both. -/
theorem exists_reads_crlf {ts : List Token} {r : Reply} {s : Scanner} (htext : text.toList = before ++ rest)
    (hreturn : '\r' ∉ text.toList) (h : TokenSource.Reads (behind before rest) ts r s) :
    ∃ r' s', TokenSource.Reads (behind (crlf before) (crlf rest)) (ts.map (Token.withCrlf text)) r' s' ∧
      Reply.Matches (Token.withCrlf text) r r' := by
  generalize hs : behind before rest = source at h
  induction h generalizing before rest with
  | @stop source r s hpull hstops =>
      subst hs
      obtain ⟨hreply, -⟩ := pull_crlf htext hreturn
      have hpull : (behind before rest).pull = (r, s) := hpull
      rw [hpull] at hreply
      exact ⟨_, _, .stop rfl ((hreply.stops fun _ => rfl).trans hstops), hreply⟩
  | @token source t s ts r s' hpull hend _ ih =>
      subst hs
      have hpull : (behind before rest).pull = (.ok t, s) := hpull
      obtain ⟨hreply, hnext⟩ := pull_crlf htext hreturn
      obtain ⟨before', rest', htext', hs, hs'⟩ := hnext t (by rw [hpull])
      rw [hpull] at hreply hs
      obtain ⟨r', s'', hreads, hlast⟩ := ih htext' hs.symm
      exact ⟨r', s'', .token (Prod.ext hreply.eq_ok hs') hend hreads, hlast⟩

end Scanner

end LayoutRule
