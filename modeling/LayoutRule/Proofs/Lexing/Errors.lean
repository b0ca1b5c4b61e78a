import LayoutRule.Proofs.Tracker.History

/-! # Errors of a text

A text is scanned and tracked at the same time, and lexing it stops at whatever goes wrong first: a ragged line
whose first token has been scanned, or else the error of the scanner. -/

namespace LayoutRule

open TokenSource

/-- The lenient policy refuses no line, so a reading through the tracker stops where the source does. -/
theorem Tracked.Reading.reply_eq {t : Tracker} {raws out : List Token} {r q : Reply}
    (h : Reading t raws r out q) (hlenient : t.config.dedent = .lenient) : q = r := by
  cases h with
  | ended => rfl
  | failed => rfl
  | refused hrun hd =>
      obtain ⟨-, -, -, hmeasure⟩ := Tracker.effect_eq_error hd
      obtain ⟨-, hstrict, -⟩ := Tracker.measure_eq_error hmeasure
      rw [hrun.config_eq, hlenient] at hstrict
      cases hstrict

/-- Without its markers a lexed text is the scanned text. -/
theorem tokenize_of_lexWith {config : TrackerConfig} {text : String} {tokens : List Token}
    (h : lexWith config text = .ok tokens) :
    tokenize text = .ok (tokens.filter (!·.kind.isSynthetic)) := by
  obtain ⟨raws, t, hraws, hrun⟩ := exists_run_of_lexWith h
  rw [hrun.filter_isSynthetic_eq_raws (rawTokens_of_tokenize hraws).isSynthetic_eq_false, hraws]

private theorem map_eq_error_iff (r : Reply) (raws : List Token) (e : LexError) :
    (r.map fun t => raws ++ [t]) = .error e ↔ r = .error e := by
  cases r <;> simp [Except.map]

private theorem exists_map_eq_ok_iff (r : Reply) (raws : List Token) :
    (∃ ts, (r.map fun t => raws ++ [t]) = .ok ts) ↔ ∃ t, r = .ok t := by
  cases r <;> simp [Except.map]

/-- Leniently, a text is lexed exactly if it is scanned. Whenever it is lexed, it is scanned to the same tokens
without the markers. When it is not, the error is the one that comes first: the refusal of the earliest ragged
line, of those whose first token is scanned before the scanner stops, or else the error of the scanner. -/
theorem lexWith_stops_at_first_error (config : TrackerConfig) (text : String) :
    (config.dedent = .lenient →
        ((∃ tokens, lexWith config text = .ok tokens) ↔ ∃ raws, tokenize text = .ok raws)) ∧
      (∀ tokens, lexWith config text = .ok tokens →
        tokenize text = .ok (tokens.filter (!·.kind.isSynthetic))) ∧
      ∃ raws r s, Reads (Scanner.ofText text) raws r s ∧ tokenize text = r.map (fun t => raws ++ [t]) ∧
        ∀ e, lexWith config text = .error e ↔
          (config.dedent = .strict ∧
            ∃ i first d, EarliestRagged (lineFirsts raws) i first d ∧ e = .raggedDedent d) ∨
          ((config.dedent = .strict → ∀ i, ¬RaggedAt ((lineFirsts raws).map Token.column) i) ∧
            tokenize text = .error e) := by
  obtain ⟨raws, r, s, out, q, hreads, hraws, hreading, hlex⟩ := exists_reading_of_text config text
  refine ⟨fun hlenient => ?_, fun tokens => tokenize_of_lexWith, raws, r, s, hreads, hraws, fun e => ?_⟩
  · rw [hlex, hraws, exists_map_eq_ok_iff, exists_map_eq_ok_iff, hreading.reply_eq hlenient]
  · rw [hlex, hraws, map_eq_error_iff, map_eq_error_iff]
    cases hdedent : config.dedent with
    | lenient => simp [hreading.reply_eq hdedent]
    | strict =>
        rcases hreading.regular_or_refused hdedent hreads.isEnd_eq_false with
          ⟨rfl, hregular⟩ | ⟨before, first, later, d, t, -, hearliest, -, -, rfl⟩
        · have hnone : ¬∃ i first d, EarliestRagged (lineFirsts raws) i first d ∧ e = .raggedDedent d := by
            rintro ⟨i, first, d, hearliest, -⟩
            exact hregular i hearliest.isLeast.1
          simp [hnone, hregular]
        · constructor
          · intro he
            exact Or.inl ⟨rfl, _, _, d, hearliest, (Except.error.inj he).symm⟩
          · rintro (⟨-, i, first', d', hearliest', rfl⟩ | ⟨hregular, -⟩)
            · rw [hearliest.unique hearliest']
            · exact absurd hearliest.isLeast.1 (hregular rfl _)

/-- On the ragged third line the scanner would go wrong behind the first token, too late to count. -/
theorem lexWith_stops_at_first_error_ragged :
    let text := "a\n    b\n  c ?\n"
    tokenize text = .error (.unexpectedCharacter 3 4 "?") ∧
      lexWith .strict text = .error (.raggedDedent ⟨3, 2, 0⟩) ∧
      ∃ raws r s i first, Reads (Scanner.ofText text) raws r s ∧
        EarliestRagged (lineFirsts raws) i first ⟨3, 2, 0⟩ := by
  intro text
  have hscan : tokenize text = .error (.unexpectedCharacter 3 4 "?") := by decide +kernel
  have hlex : lexWith .strict text = .error (.raggedDedent ⟨3, 2, 0⟩) := by decide +kernel
  obtain ⟨-, -, raws, r, s, hreads, -, herror⟩ := lexWith_stops_at_first_error .strict text
  rcases (herror _).mp hlex with ⟨-, i, first, d, hearliest, hd⟩ | ⟨-, hraws⟩
  · cases hd
    exact ⟨hscan, hlex, raws, r, s, i, first, hreads, hearliest⟩
  · cases hscan.symm.trans hraws

end LayoutRule
