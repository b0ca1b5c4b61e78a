import LayoutRule.Proofs.Scanner.WholeLines
import LayoutRule.Proofs.Source.Horizon

/-! # Joined texts

A scanner that stands at the start of a line has nothing else in mind than the place where it stands. So a text
behind whole lines is scanned as it would be by itself, only further down. -/

namespace LayoutRule

open TokenSource
open String (utf8Len)

/-- Behind whole lines stands the start of a line. -/
theorem WholeLines.advance_start {cs : List Char} (h : WholeLines cs) :
    Position.start.advance cs = Position.start.moved (cs.count '\n') (utf8Len cs) := by
  have hline := Position.advance_line Position.start cs
  have hcolumn : (Position.start.advance cs).column = 0 := h.column_eq_zero rfl
  have hoffset := Position.advance_offset Position.start cs
  rw [Position.moved, ← hline, ← hoffset]
  exact congrArg (Position.mk _ · _) hcolumn

namespace Scanner

/-- Whole lines that are scanned without an error are scanned to the same tokens whatever stands behind them. -/
theorem exists_tokens_of_wholeLines {above : String} (h : WholeLines above.toList) {tokens : List Token}
    (htokens : tokenize above = .ok tokens) :
    ∃ us final, tokens = us ++ [final] ∧ final.isEnd = true ∧ (∀ u ∈ us, u.isEnd = false) ∧
      ∀ behind, replies us.length (Scanner.mk (above.toList ++ behind) Position.start) = us.map .ok ∧
        after us.length (Scanner.mk (above.toList ++ behind) Position.start) =
          (Scanner.mk behind Position.start).moved (above.toList.count '\n') above.utf8ByteSize := by
  obtain ⟨rs, hend, -, hscan⟩ := exists_replies_of_wholeLines h Position.start
  obtain ⟨us, hus, hsplit⟩ := exists_tokens_before_error rs hend
  obtain ⟨hreplies, hafter⟩ := hscan []
  rw [List.append_nil] at hreplies hafter
  rcases hsplit with rfl | ⟨e, more, rfl⟩
  · rw [List.length_map] at hreplies hafter
    have hlast : Reads (after us.length (ofText above)) [] (.ok (Scanner.endToken ⟨[], _⟩)) _ :=
      .stop (congrArg pull hafter) rfl
    have hreads := tokenize_of_reads (Reads.append hreplies hus hlast)
    have hsame := Except.ok.inj (htokens.symm.trans hreads)
    refine ⟨us, _, by rw [hsame, List.append_nil], rfl, hus, fun behind => ?_⟩
    have hbehind := hscan behind
    rwa [List.length_map, h.advance_start, String.utf8Len_toList] at hbehind
  · obtain ⟨hreplies, hpull⟩ := replies_eq_append hreplies
    rw [List.length_map] at hreplies hpull
    have hlast : Reads (after us.length (ofText above)) [] (.error e) _ := .stop (Prod.ext hpull rfl) rfl
    have hreads := tokenize_of_reads (Reads.append hreplies hus hlast)
    cases htokens.symm.trans hreads

end Scanner

/-- Put a text behind whole lines that can be scanned. Then their tokens come first, but for the end token, and
behind them the tokens of the text, its end token included, with the same kinds, texts and columns. Their lines are
further down by the line feeds above and their spans by the bytes. An error of the text is the same error, as many
lines further down. -/
theorem tokenize_append (above below : String) (habove : WholeLines above.toList) {tokens : List Token}
    (h : tokenize above = .ok tokens) :
    let m := Relabelling.moved (above.toList.count '\n') above.utf8ByteSize
    (∀ more, tokenize below = .ok more →
        tokenize (above ++ below) = .ok (tokens.filter (!·.isEnd) ++ more.map (Token.relabel m))) ∧
      ∀ e, tokenize below = .error e → tokenize (above ++ below) = .error (e.relabel m) := by
  intro m
  obtain ⟨us, final, rfl, hfinal, hus, hscan⟩ := Scanner.exists_tokens_of_wholeLines habove h
  obtain ⟨raws, r, s, hreads, -⟩ := (Scanner.ofText below).exists_reads
  obtain ⟨s', hmoved⟩ := (Scanner.relabels_moved (Scanner.ofText below)).reads hreads
  have htext : Scanner.ofText (above ++ below) = ⟨above.toList ++ below.toList, Position.start⟩ := by
    rw [Scanner.ofText, String.toList_append]
  obtain ⟨hreplies, hafter⟩ := hscan below.toList
  rw [← htext] at hreplies hafter
  have hjoined := tokenize_of_reads (Reads.append hreplies hus (hafter ▸ hmoved))
  have hbelow := tokenize_of_reads hreads
  have hfilter : (us ++ [final]).filter (!·.isEnd) = us := by
    simpa [hfinal, List.filter_eq_self] using hus
  rw [hfilter]
  cases r with
  | error e =>
      refine ⟨fun more hmore => absurd (hbelow.symm.trans hmore) nofun, fun e' he => ?_⟩
      obtain rfl := Except.error.inj (hbelow.symm.trans he)
      exact hjoined
  | ok t =>
      refine ⟨fun more hmore => ?_, fun e he => absurd (hbelow.symm.trans he) nofun⟩
      obtain rfl := Except.ok.inj (hbelow.symm.trans hmore)
      rw [hjoined, List.map_append, ← List.append_assoc]
      rfl

/-- Behind a string with a carriage return in it, a comment and a line break of two characters. -/
theorem tokenize_append_comment :
    let above := "x = 'é\\\r' # y\r\n"
    let tokens : List Token := [⟨.name, "x", 1, 0, ⟨0, 1⟩⟩, ⟨.operator, "=", 1, 2, ⟨2, 3⟩⟩,
      ⟨.string, "'é\\\r'", 1, 4, ⟨4, 10⟩⟩, ⟨.lineBreak, "\r\n", 1, 13, ⟨14, 16⟩⟩]
    WholeLines above.toList ∧ tokenize above = .ok (tokens ++ [Token.endOfInput 2 0 16]) ∧
      tokenize (above ++ " z") = .ok (tokens ++ [⟨.name, "z", 2, 1, ⟨17, 18⟩⟩, Token.endOfInput 2 2 18]) ∧
      tokenize (above ++ " z '") = .error (.unexpectedCharacter 2 3 "'") := by
  intro above tokens
  have habove : WholeLines above.toList := Or.inr ⟨above.toList.dropLast, by decide⟩
  have htokens : tokenize above = .ok (tokens ++ [Token.endOfInput 2 0 16]) := by decide +kernel
  have hmore : tokenize " z" = .ok [⟨.name, "z", 1, 1, ⟨1, 2⟩⟩, Token.endOfInput 1 2 2] := by decide +kernel
  have herror : tokenize " z '" = .error (.unexpectedCharacter 1 3 "'") := by decide +kernel
  have hz := (tokenize_append above " z" habove htokens).1 _ hmore
  have hquote := (tokenize_append above " z '" habove htokens).2 _ herror
  exact ⟨habove, htokens, hz.trans (by decide +kernel), hquote.trans (by decide +kernel)⟩

end LayoutRule
