import LayoutRule.Proofs.Scanner.Spaced
import LayoutRule.Proofs.Tree.Offside

/-! # Labels

The label of a statement can be scanned again: it is the texts of the tokens with single spaces between them, and each
text is a lexeme. -/

namespace LayoutRule

open Node

/-- The tokens of the statements of a text are lexemes. -/
theorem isLexeme_of_outlineText {config : TrackerConfig} {text : String} {forest : List Node}
    (h : outlineText config text = .ok forest) : ∀ s ∈ statements forest, ∀ t ∈ s.2, t.IsLexeme := by
  obtain ⟨raws, hraws, hstatements⟩ := exists_raws_of_outlineText h
  obtain ⟨ts, final, s', hreads, rfl⟩ := exists_reads_of_tokenize hraws
  intro s hs t ht
  obtain ⟨hmem, hordinary⟩ := hstatements s hs t ht
  rcases List.mem_append.mp hmem with hmem | hmem
  · exact Scanner.isLexeme_of_reads hreads t hmem
  · -- the end token is in no statement
    have hend : t.isEnd = true := List.mem_singleton.mp hmem ▸ hreads.stops_eq_true
    rw [(Token.isEnd_iff t).mp hend] at hordinary
    cases hordinary

/-- The label of a statement read from a text is scanned to one token for each token of the statement, of the same
kind and with the same text, and to the end token behind them. So a space between two lexemes joins, parts and changes
none. -/
theorem labels_scan_to_tokens {config : TrackerConfig} {text : String} {forest : List Node}
    (h : outlineText config text = .ok forest) :
    ∀ p ∈ walkForest forest, ∀ tokens ∈ p.2.tokens?, ∃ ts final,
      tokenize p.2.label = .ok (ts ++ [final]) ∧ final.isEnd = true ∧ List.Forall₂ Token.SameLexeme ts tokens := by
  rintro ⟨a, n⟩ hp tokens htokens
  have hlexemes := isLexeme_of_outlineText h (a, tokens) (mem_statements hp htokens)
  cases n with
  | statement tokens' body =>
      obtain rfl := Option.some.inj htokens
      exact exists_tokenize_spaced hlexemes
  | block children => cases htokens

/-- Operators and numbers that would be read differently without the space between them, and a string with a number
sign, a quote, a carriage return and a space in it. -/
theorem labels_scan_to_tokens_string :
    let text := "if a== =1.5.x: # c\n  s='#\\'\\\r \"'\n"
    let header : List Token := [Sample.token .keyword "if" 1 0 0, Sample.token .name "a" 1 3 3,
      Sample.token .operator "==" 1 4 4, Sample.token .operator "=" 1 7 7, Sample.token .number "1.5" 1 8 8,
      Sample.token .delimiter "." 1 11 11, Sample.token .name "x" 1 12 12, Sample.token .delimiter ":" 1 13 13]
    let body : List Token := [Sample.token .name "s" 2 2 21, Sample.token .operator "=" 2 3 22,
      Sample.token .string "'#\\'\\\r \"'" 2 4 23]
    let forest : List Node := [.statement header [.statement body []]]
    outlineText .strict text = .ok forest ∧
      (walkForest forest).map (·.2.label) = ["if a == = 1.5 . x :", "s = '#\\'\\\r \"'"] ∧
      ∀ p ∈ walkForest forest, ∀ tokens ∈ p.2.tokens?, ∃ ts final,
        tokenize p.2.label = .ok (ts ++ [final]) ∧ final.isEnd = true ∧ List.Forall₂ Token.SameLexeme ts tokens := by
  intro text header body forest
  have houtline : outlineText .strict text = .ok forest := by decide +kernel
  exact ⟨houtline, by decide +kernel, labels_scan_to_tokens houtline⟩

end LayoutRule
