import LayoutRule.Proofs.Lexing.Readings
import LayoutRule.Proofs.Scanner.WholeLines
import LayoutRule.Proofs.Tree.Acceptance
import LayoutRule.Proofs.Tree.Kinds

/-! # Blank lines

A line with nothing but blanks and a comment on it adds its line break to the tokens of a text and nothing to
the outline: the markers in front of the next line come behind the break, and only the lines and the spans of
what stands behind it change. -/

namespace LayoutRule

open TokenSource

/-! ### Lexing whole lines -/

private theorem lineBegins_of_replies {above : List Char} {us : List Token}
    (h : above = [] ∧ us.map .ok = ([] : List Reply) ∨
      ∃ (before : List Reply) (lb : Token), us.map .ok = before ++ [.ok lb] ∧ lb.kind = .lineBreak) :
    Outline.LineBegins us := by
  intro u hu
  rcases h with ⟨-, hnil⟩ | ⟨before, lb, hbefore, hk⟩
  · simp [List.map_eq_nil_iff.mp hnil] at hu
  · have hlb := congrArg List.getLast? hbefore
    rw [List.getLast?_map, hu] at hlb
    simp only [Option.map_some, List.getLast?_concat, Option.some.injEq, Except.ok.injEq] at hlb
    exact hlb ▸ hk

/-- Behind raw tokens behind which a line begins, a line begins for the tracker and in what it hands out. -/
theorem Tracker.Run.lineBegins {t t' : Tracker} {raws out : List Token} (h : t.Run raws out t')
    (ht : t.atLineStart = true) (hraws : Outline.LineBegins raws) :
    t'.atLineStart = true ∧ Outline.LineBegins out := by
  rcases List.eq_nil_or_concat raws with rfl | ⟨before, lb, rfl⟩
  · cases h
    exact ⟨ht, by simp [Outline.LineBegins]⟩
  · rw [List.concat_eq_append] at h hraws
    obtain ⟨out₁, out₂, t₁, rfl, -, hlast⟩ := h.split
    have hk : lb.kind = .lineBreak := hraws lb (by simp)
    cases hlast with
    | @cons _ _ _ e _ _ _ he hnil =>
        cases hnil
        refine ⟨t₁.lineStartAfter_of_lineBreak hk, ?_⟩
        simpa [Outline.LineBegins] using hk

/-- What becomes of whole lines is settled by them alone: lexing them fails with the same error whatever stands
behind, or the same tokens are handed out and what stands behind is lexed from the start of a line on. -/
theorem lex_wholeLines (config : TrackerConfig) {above : List Char} (h : WholeLines above) :
    (∃ e, ∀ behind, ∃ out s',
        Reads (Tracked.start config (Scanner.mk (above ++ behind) Position.start)) out (.error e) s') ∨
      ∃ out t, t.Idle ∧ t.atLineStart = true ∧ Outline.LineBegins out ∧ (∀ u ∈ out, u.isEnd = false) ∧
        ∀ behind,
          replies out.length (Tracked.start config (Scanner.mk (above ++ behind) Position.start)) = out.map .ok ∧
          after out.length (Tracked.start config (Scanner.mk (above ++ behind) Position.start)) =
            ⟨t, ⟨behind, Position.start.advance above⟩⟩ := by
  obtain ⟨rs, hend, hlast, hscan⟩ := Scanner.exists_replies_of_wholeLines h Position.start
  obtain ⟨us, hus, hsplit⟩ := exists_tokens_before_error rs hend
  have hi := Tracker.idle_start config
  rcases Tracker.run_or_refused hi us hus with
    ⟨out, t, hrun⟩ | ⟨before, raw, later, out, t, d, heq, hrun, hd⟩
  · rcases hsplit with rfl | ⟨e, more, rfl⟩
    · obtain ⟨hstart, hout⟩ := hrun.lineBegins rfl (lineBegins_of_replies hlast)
      refine Or.inr ⟨out, t, hrun.idle hi hus, hstart, hout, hrun.isEnd_eq_false hus, fun behind => ?_⟩
      obtain ⟨hreplies, hafter⟩ := hscan behind
      rw [List.length_map] at hreplies hafter
      have htracked := Tracked.replies_run hrun hreplies
      rwa [hafter] at htracked
    · exact Or.inl ⟨e, fun behind => ⟨out, _, Tracked.reads_of_error hi hus hrun (hscan behind).1⟩⟩
  · have hbefore : ∃ more, rs = before.map .ok ++ .ok raw :: more := by
      rcases hsplit with rfl | ⟨e, more, rfl⟩
      · exact ⟨_, by rw [heq, List.map_append, List.map_cons]⟩
      · exact ⟨_, by rw [heq, List.map_append, List.map_cons, List.append_assoc, List.cons_append]⟩
    obtain ⟨more, rfl⟩ := hbefore
    have hend : ∀ u ∈ before, u.isEnd = false := fun u hu => hus u (heq ▸ List.mem_append_left _ hu)
    exact Or.inl ⟨.raggedDedent d, fun behind =>
      ⟨out, _, Tracked.reads_of_refused hi hend hrun hd (hscan behind).1⟩⟩

/-! ### A line in between -/

/-- A line break where a line begins changes nothing for the tracker. -/
theorem Tracker.Idle.settle_lineBreak {t : Tracker} (hi : t.Idle) (hstart : t.atLineStart = true) {lb : Token}
    (hk : lb.kind = .lineBreak) : t.settle lb ⟨[], t.opened⟩ = t := by
  have hend : lb.isEnd = false := by simp [Token.isEnd, hk]
  obtain ⟨config, opened, pending, atLineStart, status⟩ := t
  obtain rfl : pending = [] := hi.pending
  obtain rfl : atLineStart = true := hstart
  simp [Tracker.settle, hend, Tracker.lineStartAfter_of_lineBreak _ hk]

/-- Columns are all that a tracker keeps while no token waits. -/
theorem Tracker.Idle.relabel_moved {t : Tracker} (hi : t.Idle) (lines bytes : ℕ) :
    t.relabel (.moved lines bytes) = t := by
  obtain ⟨config, opened, pending, atLineStart, status⟩ := t
  obtain rfl : pending = [] := hi.pending
  obtain rfl : status = .running := hi.running
  simp [Tracker.relabel, Relabelling.moved, TrackerStatus.relabel]

/-- A blank line in front of other text adds its line break, and the other text is read as it would be without
it, a line further down. -/
theorem exists_reads_of_blankLine {t : Tracker} (hi : t.Idle) (hstart : t.atLineStart = true)
    {line : List Char} (hline : line ∈ Vocabulary.blankLines) {p : Position} (hp : p.column = 0) :
    let m := Relabelling.moved 1 (String.utf8Len line)
    ∃ lb : Token, lb.kind = .lineBreak ∧ ∀ behind below r s,
      Reads (Tracked.mk t (Scanner.mk behind p)) below r s →
        ∃ s', Reads (Tracked.mk t (Scanner.mk (line ++ behind) p)) (lb :: below.map (Token.relabel m))
          (r.relabel m (LexError.relabel m)) s' := by
  intro m
  obtain ⟨lb, hk, hpull⟩ := Scanner.exists_pull_of_blankLine hline hp
  have hend : lb.isEnd = false := by simp [Token.isEnd, hk]
  refine ⟨lb, hk, fun behind below r s hreads => ?_⟩
  have htaken := Tracked.pull_of_effect_nil (s := ⟨t, Scanner.mk (line ++ behind) p⟩) hi (hpull behind)
    (t.effect_of_lineBreak hk) rfl
  rw [hi.settle_lineBreak hstart hk] at htaken
  have hstep : Tracked.InStep m (LexError.relabel m)
      (Tracked.mk t ((Scanner.mk behind p).moved 1 (String.utf8Len line))) (Tracked.mk t (Scanner.mk behind p)) :=
    ⟨(hi.relabel_moved _ _).symm, Scanner.relabels_moved _⟩
  obtain ⟨s', hmoved⟩ := (hstep.relabels (LexError.relabel_eq m)).reads hreads
  exact ⟨s', .token htaken hend hmoved⟩

/-- A blank line in a text adds a line break where a line begins. What goes wrong goes wrong all the same, in
the same place or one line further down. -/
theorem lexWith_insert_blankLine (config : TrackerConfig) (before line behind : String)
    (hbefore : WholeLines before.toList) (hline : line.toList ∈ Vocabulary.blankLines) :
    let old := before ++ behind
    let new := before ++ line ++ behind
    let m := Relabelling.moved 1 line.utf8ByteSize
    (∃ e e', lexWith config old = .error e ∧ lexWith config new = .error e' ∧ (e' = e ∨ e' = e.relabel m)) ∨
      ∃ above lb below, Outline.LineBegins above ∧ lb.kind = .lineBreak ∧
        lexWith config old = .ok (above ++ below) ∧
        lexWith config new = .ok (above ++ lb :: below.map (Token.relabel m)) := by
  intro old new m
  let p := Position.start.advance before.toList
  have hm : Relabelling.moved 1 (String.utf8Len line.toList) = m := by rw [String.utf8Len_toList]
  have hold : old.toList = before.toList ++ behind.toList := String.toList_append
  have hnew : new.toList = before.toList ++ (line.toList ++ behind.toList) := by
    rw [String.toList_append, String.toList_append, List.append_assoc]
  rcases lex_wholeLines config hbefore with ⟨e, herror⟩ | ⟨above, t, hi, hstart, habove, hend, hscan⟩
  · obtain ⟨out, s, hreads⟩ := herror behind.toList
    obtain ⟨out', s', hreads'⟩ := herror (line.toList ++ behind.toList)
    exact Or.inl ⟨e, e, lexWith_of_reads hold hreads, lexWith_of_reads hnew hreads', Or.inl rfl⟩
  · have hp : p.column = 0 := hbefore.column_eq_zero rfl
    obtain ⟨lb, hk, hinsert⟩ := exists_reads_of_blankLine hi hstart hline hp
    obtain ⟨raws, q, s₀, hraws, -⟩ := (Scanner.mk behind.toList p).exists_reads
    obtain ⟨below, r, s, -, hbelow, -⟩ := Tracked.exists_reading hi hraws
    obtain ⟨s', hbelow'⟩ := hinsert _ _ _ _ hbelow
    rw [hm] at hbelow'
    obtain ⟨hreplies, hafter⟩ := hscan behind.toList
    obtain ⟨hreplies', hafter'⟩ := hscan (line.toList ++ behind.toList)
    have hlex := lexWith_of_reads hold (Reads.append hreplies hend (hafter ▸ hbelow))
    have hlex' := lexWith_of_reads hnew (Reads.append hreplies' hend (hafter' ▸ hbelow'))
    cases r with
    | error e => exact Or.inl ⟨e, _, hlex, hlex', Or.inr rfl⟩
    | ok final =>
        refine Or.inr ⟨above, lb, below ++ [final], habove, hk, ?_, ?_⟩
        · rw [hlex, Except.map, List.append_assoc]
        · rw [hlex', Reply.relabel, Except.map, List.append_assoc, List.cons_append, List.map_append]
          rfl

/-! ### The outline -/

theorem Outline.LineBegins.map {ts : List Token} (h : LineBegins ts) {f : Token → Token}
    (hf : ∀ t, (f t).kind = t.kind) : LineBegins (ts.map f) := by
  intro u hu
  rw [List.getLast?_map] at hu
  obtain ⟨t, ht, rfl⟩ := Option.map_eq_some_iff.mp hu
  rw [hf, h t ht]

/-- But for lines and spans the outline is the same with a line break in between. -/
theorem outline_insert_moved {above below : List Token} (habove : Outline.LineBegins above) {lb : Token}
    (hk : lb.kind = .lineBreak) {lines bytes : ℕ} {forest forest' : List Node}
    (h : outline (above ++ below) = .ok forest)
    (h' : outline (above ++ lb :: below.map (Token.relabel (.moved lines bytes))) = .ok forest') :
    Node.mapTokens (Token.relabel .onlyColumns) forest' = Node.mapTokens (Token.relabel .onlyColumns) forest := by
  have hf (t : Token) : (t.relabel .onlyColumns).kind = t.kind := rfl
  have hbelow : (below.map (Token.relabel (.moved lines bytes))).map (Token.relabel .onlyColumns) =
      below.map (Token.relabel .onlyColumns) := by
    rw [List.map_map]
    rfl
  have hold := outline_mapTokens hf h
  have hnew := outline_mapTokens hf h'
  rw [List.map_append] at hold
  rw [List.map_append, List.map_cons, hbelow] at hnew
  have hk' : (lb.relabel .onlyColumns).kind = .lineBreak := hk
  have hsame := outline_insert_lineBreak (habove.map hf) hk' hold
  exact Except.ok.inj (hnew.symm.trans hsame)

theorem outlineText_eq_ok_iff {config : TrackerConfig} {text : String} {tokens : List Token}
    (h : lexWith config text = .ok tokens) (forest : List Node) :
    outlineText config text = .ok forest ↔ outline tokens = .ok forest := by
  simp only [outlineText, h]
  cases houtline : outline tokens <;> simp [Except.mapError]

/-- At the start of a text or behind a line feed, a line that holds nothing but blanks and a comment can be put
in or left out. The text is lexed with it exactly if it is lexed without it. With it there is one more token,
its line break; the tokens in front of it are the same, and those behind it are the same one line further down.
The outline is the same but for lines and spans, and an error is the same or stands one line further down. -/
theorem blank_line_is_inert (config : TrackerConfig) (before line behind : String)
    (hbefore : WholeLines before.toList) (hline : line.toList ∈ Vocabulary.blankLines) :
    let old := before ++ behind
    let new := before ++ line ++ behind
    let m := Relabelling.moved 1 line.utf8ByteSize
    ((∃ tokens, lexWith config new = .ok tokens) ↔ ∃ tokens, lexWith config old = .ok tokens) ∧
      (∀ tokens, lexWith config old = .ok tokens → ∃ above lb below, tokens = above ++ below ∧
        lb.kind = .lineBreak ∧ lexWith config new = .ok (above ++ lb :: below.map (Token.relabel m))) ∧
      (∀ e, lexWith config old = .error e →
        ∃ e', lexWith config new = .error e' ∧ (e' = e ∨ e' = e.relabel m)) ∧
      ∀ forest, outlineText config old = .ok forest →
        ∃ forest', outlineText config new = .ok forest' ∧
          Node.mapTokens (Token.relabel .onlyColumns) forest' =
            Node.mapTokens (Token.relabel .onlyColumns) forest := by
  intro old new m
  rcases lexWith_insert_blankLine config before line behind hbefore hline with
    ⟨e, e', hold, hnew, hsame⟩ | ⟨above, lb, below, habove, hk, hold, hnew⟩
  · have hnone : outlineText config old = .error (.lex e) := outlineText_of_error hold
    refine ⟨by simp [old, new, hold, hnew], by simp [old, hold], ?_, by simp [hnone]⟩
    intro e₁ he
    obtain rfl : e = e₁ := Except.error.inj (hold.symm.trans he)
    exact ⟨e', hnew, hsame⟩
  · refine ⟨by simp [old, new, hold, hnew], ?_, by simp [old, hold], ?_⟩
    · intro tokens htokens
      obtain rfl : above ++ below = tokens := Except.ok.inj (hold.symm.trans htokens)
      exact ⟨above, lb, below, rfl, hk, hnew⟩
    · intro forest hforest
      obtain ⟨forest', hforest'⟩ := exists_outlineText_of_lexWith hnew
      exact ⟨forest', hforest', outline_insert_moved habove hk ((outlineText_eq_ok_iff hold _).mp hforest)
        ((outlineText_eq_ok_iff hnew _).mp hforest')⟩

/-- A comment between a line and the block under it. -/
theorem blank_line_is_inert_before_block :
    let old := "a\n    b\n"
    let new := "a\n  # c\r\n    b\n"
    WholeLines "a\n".toList ∧ "  # c\r\n".toList ∈ Vocabulary.blankLines ∧
      (lexWith .strict old).map (List.map Token.kind) =
        .ok [.name, .lineBreak, .blockOpen, .name, .lineBreak, .blockDedent, .endOfInput] ∧
      (lexWith .strict new).map (List.map Token.kind) =
        .ok [.name, .lineBreak, .lineBreak, .blockOpen, .name, .lineBreak, .blockDedent, .endOfInput] ∧
      ∃ forest forest', outlineText .strict old = .ok forest ∧ outlineText .strict new = .ok forest' ∧
        Node.mapTokens (Token.relabel .onlyColumns) forest' =
          Node.mapTokens (Token.relabel .onlyColumns) forest := by
  intro old new
  have hbefore : WholeLines "a\n".toList := Or.inr ⟨['a'], by decide⟩
  have hline : "  # c\r\n".toList ∈ Vocabulary.blankLines :=
    Vocabulary.mem_blankLines.mpr ⟨[' ', ' '], ['#', ' ', 'c'], ['\r', '\n'], by decide,
      by simp [Vocabulary.isBlank], Or.inr ⟨[' ', 'c'], rfl, by simp [Vocabulary.endsLine]⟩, Or.inr rfl⟩
  obtain ⟨-, -, -, hforest⟩ := blank_line_is_inert .strict "a\n" "  # c\r\n" "    b\n" hbefore hline
  have hkinds : (lexWith .strict old).map (List.map Token.kind) =
      .ok [.name, .lineBreak, .blockOpen, .name, .lineBreak, .blockDedent, .endOfInput] := by decide +kernel
  have hlex : ∃ tokens, lexWith .strict old = .ok tokens := by
    cases hresult : lexWith .strict old with
    | error e => simp [hresult, Except.map] at hkinds
    | ok tokens => exact ⟨tokens, rfl⟩
  obtain ⟨tokens, hlex⟩ := hlex
  obtain ⟨forest, hold⟩ := exists_outlineText_of_lexWith hlex
  obtain ⟨forest', hnew, hsame⟩ := hforest forest hold
  exact ⟨hbefore, hline, hkinds, by decide +kernel, forest, forest', hold, hnew, hsame⟩

end LayoutRule
