import LayoutRule.Proofs.Lexing.BlankLines
import LayoutRule.Proofs.Scanner.LineEndings
import LayoutRule.Proofs.Tree.Layout

/-! # Lexing with other line endings

The tracker goes by the kinds and the places of raw tokens. So what it makes of the tokens of a text it makes of the
same tokens in a text whose lines end in another way. -/

namespace LayoutRule

open TokenSource

/-! ### Changes that the tracker does not see -/

namespace Tracker

/-- A change of tokens that leaves kinds and places alone, and changes a marker as it does the token that the marker
copies. -/
structure Unseen (f : Token → Token) : Prop where
  kind : ∀ t, (f t).kind = t.kind
  line : ∀ t, (f t).line = t.line
  column : ∀ t, (f t).column = t.column
  blockOpen : ∀ t, (f t).blockOpen = f t.blockOpen
  blockDedent : ∀ t, (f t).blockDedent = f t.blockDedent

namespace Unseen

variable {f : Token → Token} {t t' : Tracker} {raw : Token} {raws out : List Token}

theorem isEnd (hf : Unseen f) (t : Token) : (f t).isEnd = t.isEnd := by
  rw [Token.isEnd, hf.kind, Token.isEnd]

theorem measure (hf : Unseen f) (t : Tracker) (raw : Token) :
    t.measure (f raw) = (t.measure raw).map fun e => ⟨e.markers.map f, e.opened⟩ := by
  simp only [Tracker.measure, hf.column, hf.line, hf.blockOpen, hf.blockDedent]
  split
  · rfl
  · split
    · rfl
    · simp [Except.map]

theorem effect (hf : Unseen f) (t : Tracker) (raw : Token) :
    t.effect (f raw) = (t.effect raw).map fun e => ⟨e.markers.map f, e.opened⟩ := by
  by_cases hb : raw.kind = .lineBreak
  · rw [t.effect_of_lineBreak hb, t.effect_of_lineBreak ((hf.kind raw).trans hb)]
    rfl
  · have hb' : (f raw).kind ≠ .lineBreak := by rwa [hf.kind]
    cases he : raw.isEnd with
    | true =>
        rw [t.effect_of_isEnd he, t.effect_of_isEnd ((hf.isEnd raw).trans he), hf.blockDedent]
        simp [Except.map]
    | false =>
        rw [t.effect_of_content hb he, t.effect_of_content hb' ((hf.isEnd raw).trans he), hf.measure]
        split
        · rfl
        · rfl

theorem effect_eq_ok (hf : Unseen f) {e : Effect} (h : t.effect raw = .ok e) :
    t.effect (f raw) = .ok ⟨e.markers.map f, e.opened⟩ := by
  rw [hf.effect, h]
  rfl

theorem effect_eq_error (hf : Unseen f) {d : RaggedDedent} (h : t.effect raw = .error d) :
    t.effect (f raw) = .error d := by
  rw [hf.effect, h]
  rfl

theorem settle (hf : Unseen f) (t : Tracker) (h : raw.isEnd = false) (ms : List Token) (opened : List ℕ) :
    t.settle (f raw) ⟨ms.map f, opened⟩ = t.settle raw ⟨ms, opened⟩ := by
  simp [Tracker.settle, hf.isEnd, h, Tracker.lineStartAfter, hf.kind]

theorem run (hf : Unseen f) (hrun : t.Run raws out t') (hend : ∀ u ∈ raws, u.isEnd = false) :
    t.Run (raws.map f) (out.map f) t' := by
  induction hrun with
  | nil => exact .nil
  | @cons t raw raws e out t' hi he _ ih =>
      have hrest := ih fun u hu => hend u (List.mem_cons_of_mem raw hu)
      rw [← hf.settle t (hend raw List.mem_cons_self)] at hrest
      simpa using Run.cons hi (hf.effect_eq_ok he) hrest

end Unseen

end Tracker

/-- A reading of changed tokens is the reading of the tokens themselves, changed. -/
theorem Tracked.Reading.map {f : Token → Token} (hf : Tracker.Unseen f) {t : Tracker} {raws out : List Token}
    {r r' q : Reply} (h : Reading t raws r out q) (hend : ∀ u ∈ raws, u.isEnd = false)
    (hr : Reply.Matches f r r') :
    ∃ q', Reading t (raws.map f) r' (out.map f) q' ∧ Reply.Matches f q q' := by
  cases h with
  | @ended _ final _ t' hrun =>
      -- a tracker keeps the end token it has handed out, so the runs end in different trackers
      obtain rfl := hr.eq_ok
      obtain ⟨before, behind, mid, hout, hbefore, hlast⟩ := hrun.split
      cases hlast with
      | @cons _ _ _ e _ _ hi he hnil =>
          cases hnil
          have hrun' := (hf.run hbefore hend).append (.cons hi (hf.effect_eq_ok he) .nil)
          have hout' : before.map f ++ (e.markers.map f ++ [f final]) = out.map f ++ [f final] := by
            simpa using (congrArg (List.map f) hout).symm
          rw [hout'] at hrun'
          exact ⟨_, .ended hrun', .token final⟩
  | failed hrun =>
      cases hr with
      | error => exact ⟨_, .failed (hf.run hrun hend), .error _ _⟩
  | @refused before raw later _ _ t' d hrun hd =>
      have hbefore := hf.run hrun fun u hu => hend u (by simp [hu])
      have hrefused : Reading t (before.map f ++ f raw :: later.map f) r' (out.map f) (.error (.raggedDedent d)) :=
        .refused hbefore (hf.effect_eq_error hd)
      refine ⟨_, ?_, .error (.raggedDedent d) (.raggedDedent d)⟩
      rwa [List.map_append, List.map_cons]

/-! ### Both texts -/

theorem Token.unseen_withCrlf (text : String) : Tracker.Unseen (Token.withCrlf text) where
  kind _ := rfl
  line _ := rfl
  column _ := rfl
  blockOpen _ := rfl
  blockDedent _ := rfl

/-- Both texts are lexed to the same tokens, or both with an error. -/
theorem exists_lexWith_withCrlf (config : TrackerConfig) {text : String} (hreturn : '\r' ∉ text.toList) :
    ∃ out q q', lexWith config text = q.map (fun t => out ++ [t]) ∧
      lexWith config (withCrlf text) = q'.map (fun t => out.map (Token.withCrlf text) ++ [t]) ∧
      Reply.Matches (Token.withCrlf text) q q' := by
  obtain ⟨raws, r, s', out, q, hreads, -, hreading, hlex⟩ := exists_reading_of_text config text
  have hwhole : text.toList = [] ++ text.toList := rfl
  obtain ⟨r', s'', hreads', hr⟩ := Scanner.exists_reads_crlf hwhole hreturn hreads
  obtain ⟨q', hreading', hq⟩ := hreading.map (Token.unseen_withCrlf text) hreads.isEnd_eq_false hr
  have htext : Scanner.behind [] (crlf text.toList) = Scanner.ofText (withCrlf text) := by
    rw [Scanner.ofText, withCrlf, String.toList_ofList]
    rfl
  exact ⟨out, q, q', hlex, lexWith_of_reading (htext ▸ hreads') hreading', hq⟩

/-- A token with its span where it lies in the other text. -/
def Token.shifted (text : String) (t : Token) : Token := { t with span := t.span.withCrlf text }

/-- There are no line breaks in a forest, so only its spans are others. -/
theorem mapTokens_withCrlf {config : TrackerConfig} {text : String} {forest : List Node}
    (h : outlineText config text = .ok forest) :
    Node.mapTokens (Token.withCrlf text) forest = Node.mapTokens (Token.shifted text) forest := by
  obtain ⟨raws, -, hstatements⟩ := exists_raws_of_outlineText h
  refine Node.mapTokens_congr [] 0 fun p hp tokens htokens t ht => ?_
  have hmem : (p.1, tokens) ∈ Node.statements forest := Node.mem_statements hp htokens
  obtain ⟨hbreak, -⟩ := content_of_isOrdinary (hstatements _ hmem t ht).2
  simp [Token.withCrlf, Token.shifted, hbreak]

/-- Write a text without carriage returns with one in front of each line feed. It is lexed exactly if it was, under
any policy, and to the same tokens: kinds, lines and columns stay, and so do texts but for those of line breaks. A
span lies as many bytes further on as there are line feeds in front of its ends. The forest is the same but for
spans. -/
theorem line_endings_are_equivalent (config : TrackerConfig) (text : String) (hreturn : '\r' ∉ text.toList) :
    ((∃ tokens, lexWith config (withCrlf text) = .ok tokens) ↔ ∃ tokens, lexWith config text = .ok tokens) ∧
      (∀ tokens, lexWith config text = .ok tokens →
        lexWith config (withCrlf text) = .ok (tokens.map (Token.withCrlf text))) ∧
      ((∃ forest, outlineText config (withCrlf text) = .ok forest) ↔
        ∃ forest, outlineText config text = .ok forest) ∧
      ∀ forest, outlineText config text = .ok forest →
        outlineText config (withCrlf text) = .ok (Node.mapTokens (Token.shifted text) forest) := by
  obtain ⟨out, q, q', hlex, hlex', hq⟩ := exists_lexWith_withCrlf config hreturn
  cases hq with
  | error e e' =>
      have hnone : outlineText config text = .error (.lex e) := outlineText_of_error hlex
      have hnone' : outlineText config (withCrlf text) = .error (.lex e') := outlineText_of_error hlex'
      simp [hlex, hlex', hnone, hnone', Except.map]
  | token final =>
      have hlex : lexWith config text = .ok (out ++ [final]) := hlex
      have hlex' : lexWith config (withCrlf text) = .ok ((out ++ [final]).map (Token.withCrlf text)) := by
        rw [hlex', List.map_append]
        rfl
      refine ⟨⟨fun _ => ⟨_, hlex⟩, fun _ => ⟨_, hlex'⟩⟩, fun tokens htokens => ?_, ?_, fun forest hforest => ?_⟩
      · obtain rfl := Except.ok.inj (hlex.symm.trans htokens)
        exact hlex'
      · exact ⟨fun _ => exists_outlineText_of_lexWith hlex, fun _ => exists_outlineText_of_lexWith hlex'⟩
      · have houtline := (outlineText_eq_ok_iff hlex forest).mp hforest
        rw [outlineText_eq_ok_iff hlex', ← mapTokens_withCrlf hforest]
        exact outline_mapTokens (Token.unseen_withCrlf text).kind houtline

/-- A comment with a character of two bytes, and a string in a block under its line. -/
theorem line_endings_are_equivalent_in_block :
    let text := "a # é\n    'b'\n"
    '\r' ∉ text.toList ∧ withCrlf text = "a # é\r\n    'b'\r\n" ∧
      lexWith .strict text = .ok [⟨.name, "a", 1, 0, ⟨0, 1⟩⟩, ⟨.lineBreak, "\n", 1, 5, ⟨6, 7⟩⟩,
        ⟨.blockOpen, "<<INDENT>>", 2, 0, ⟨11, 14⟩⟩, ⟨.string, "'b'", 2, 4, ⟨11, 14⟩⟩,
        ⟨.lineBreak, "\n", 2, 7, ⟨14, 15⟩⟩, ⟨.blockDedent, "<<DEDENT>>", 3, 0, ⟨15, 15⟩⟩,
        Token.endOfInput 3 0 15] ∧
      lexWith .strict (withCrlf text) = .ok [⟨.name, "a", 1, 0, ⟨0, 1⟩⟩, ⟨.lineBreak, "\r\n", 1, 5, ⟨6, 8⟩⟩,
        ⟨.blockOpen, "<<INDENT>>", 2, 0, ⟨12, 15⟩⟩, ⟨.string, "'b'", 2, 4, ⟨12, 15⟩⟩,
        ⟨.lineBreak, "\r\n", 2, 7, ⟨15, 17⟩⟩, ⟨.blockDedent, "<<DEDENT>>", 3, 0, ⟨17, 17⟩⟩,
        Token.endOfInput 3 0 17] := by
  intro text
  have hreturn : '\r' ∉ text.toList := by decide
  have hlex : lexWith .strict text = .ok [⟨.name, "a", 1, 0, ⟨0, 1⟩⟩, ⟨.lineBreak, "\n", 1, 5, ⟨6, 7⟩⟩,
      ⟨.blockOpen, "<<INDENT>>", 2, 0, ⟨11, 14⟩⟩, ⟨.string, "'b'", 2, 4, ⟨11, 14⟩⟩,
      ⟨.lineBreak, "\n", 2, 7, ⟨14, 15⟩⟩, ⟨.blockDedent, "<<DEDENT>>", 3, 0, ⟨15, 15⟩⟩,
      Token.endOfInput 3 0 15] := by decide +kernel
  obtain ⟨-, htokens, -⟩ := line_endings_are_equivalent .strict text hreturn
  refine ⟨hreturn, by decide +kernel, hlex, (htokens _ hlex).trans ?_⟩
  decide +kernel

end LayoutRule
