import LayoutRule.Proofs.Scanner.Lines
import LayoutRule.Proofs.Scanner.Patterns

/-! # Longest lexemes

The scanner takes the longest gap and then the longest word that matches a pattern of the vocabulary. It
refuses a text exactly if no pattern has a word at its front. -/

namespace LayoutRule

namespace Vocabulary

open Computability

/-! ### Gaps -/

private theorem isPrefix_takeWhile {p : Char → Bool} {v cs : List Char} (h : v <+: cs)
    (hv : ∀ c ∈ v, p c = true) : v <+: cs.takeWhile p := by
  obtain ⟨rest, rfl⟩ := h
  rw [List.takeWhile_append_of_pos hv]
  exact List.prefix_append v _

theorem gap_isPrefix (cs : List Char) : gap cs <+: cs := by
  induction cs with
  | nil => exact List.prefix_rfl
  | cons c cs ih =>
      simp only [gap]
      split
      · exact List.cons_prefix_cons.mpr ⟨rfl, ih⟩
      · split
        · exact List.cons_prefix_cons.mpr ⟨rfl, List.takeWhile_prefix _⟩
        · exact List.nil_prefix

theorem gap_mem (cs : List Char) : gap cs ∈ gaps := by
  induction cs with
  | nil => exact Language.nil_mem_kstar _
  | cons c cs ih =>
      simp only [gap]
      split
      · exact append_mem_kstar (mem_gapParts.mpr (Or.inl ⟨c, rfl, ‹_›⟩)) ih
      · split
        · rename_i hc
          subst hc
          have hcomment : '#' :: cs.takeWhile (!endsLine ·) ∈ gapParts := by
            refine mem_gapParts.mpr (Or.inr ⟨_, rfl, fun d hd => ?_⟩)
            simpa using List.mem_takeWhile_imp hd
          have hgap := append_mem_kstar hcomment (Language.nil_mem_kstar _)
          rwa [List.append_nil] at hgap
        · exact Language.nil_mem_kstar _

theorem endsLine_of_mem_gaps {w : List Char} (hw : w ∈ gaps) : ∀ c ∈ w, endsLine c = false := by
  obtain ⟨parts, rfl, hparts⟩ := Language.mem_kstar.mp hw
  intro c hc
  obtain ⟨part, hpart, hc⟩ := List.mem_flatten.mp hc
  rcases mem_gapParts.mp (hparts part hpart) with ⟨d, rfl, hd⟩ | ⟨cs, rfl, hcs⟩
  · obtain rfl := List.mem_singleton.mp hc
    simp only [isBlank, Bool.or_eq_true, decide_eq_true_eq] at hd
    rcases hd with (rfl | rfl) | rfl <;> rfl
  · rcases List.mem_cons.mp hc with rfl | hc
    · rfl
    · exact hcs c hc

/-- Any gap at the front of a text is a part of the one that is skipped. -/
theorem isPrefix_gap {v cs : List Char} (hv : v ∈ gaps) (h : v <+: cs) : v <+: gap cs := by
  have hline := endsLine_of_mem_gaps hv
  obtain ⟨parts, rfl, hparts⟩ := Language.mem_kstar.mp hv
  clear hv
  induction parts generalizing cs with
  | nil => exact List.nil_prefix
  | cons part parts ih =>
      obtain ⟨hpart, hrest⟩ := List.forall_mem_cons.mp hparts
      rw [List.flatten_cons] at h hline ⊢
      rcases mem_gapParts.mp hpart with ⟨c, rfl, hc⟩ | ⟨body, rfl, -⟩
      · obtain ⟨behind, rfl⟩ := h
        have hinside := ih hrest (List.prefix_append parts.flatten behind) fun d hd =>
          hline d (List.mem_append_right _ hd)
        simpa [gap, hc] using hinside
      · -- behind a number sign the whole gap is one comment
        obtain ⟨behind, rfl⟩ := h
        have hcomment : body ++ parts.flatten <+: (body ++ parts.flatten ++ behind).takeWhile (!endsLine ·) :=
          isPrefix_takeWhile (List.prefix_append _ _) fun d hd => by
            simp [hline d (List.mem_cons_of_mem _ hd)]
        have hsign : isBlank '#' = false := rfl
        simpa [gap, hsign] using hcomment

/-- The gap in front of a text hangs on the gaps that stand there. -/
theorem gap_congr {cs ds : List Char} (h : ∀ w ∈ gaps, w <+: cs ↔ w <+: ds) : gap cs = gap ds := by
  have hshorter := isPrefix_gap (gap_mem cs) ((h _ (gap_mem cs)).mp (gap_isPrefix cs))
  have hlonger := isPrefix_gap (gap_mem ds) ((h _ (gap_mem ds)).mpr (gap_isPrefix ds))
  exact hshorter.eq_of_length_le hlonger.length_le

/-! ### What a lexeme can be -/

/-- The lexeme at the front of a text, by its first character. -/
inductive Lexeme (c : Char) (cs : List Char) : TokenKind → List Char → Prop where
  | word (h : isNameStart c = true) :
      Lexeme c cs (wordKind (c :: cs.takeWhile isNameChar)) (c :: cs.takeWhile isNameChar)
  | number (h : c.isDigit = true) :
      Lexeme c cs .number (c :: cs.takeWhile Char.isDigit ++ fraction (cs.dropWhile Char.isDigit))
  | string (h : isQuote c = true) (hclose : (cs.drop (quotedRun c cs).length).head? = some c) :
      Lexeme c cs .string (c :: (quotedRun c cs ++ [c]))
  | lineFeed (h : c = '\n') : Lexeme c cs .lineBreak [c]
  | carriageReturn (h : c = '\r') (hnext : cs.head? = some '\n') : Lexeme c cs .lineBreak [c, '\n']
  | delimiter (h : isDelimiter c = true) : Lexeme c cs .delimiter [c]
  | pair (h : joinsEquals c = true) (hnext : cs.head? = some '=') : Lexeme c cs .operator [c, '=']
  | operator (h : isOperator c = true) (hnext : joinsEquals c = true → cs.head? ≠ some '=') :
      Lexeme c cs .operator [c]

theorem isNameStart_of_isDigit {c : Char} (h : c.isDigit = true) : isNameStart c = false := by
  obtain ⟨-, hdigit⟩ : '0' ≤ c ∧ c ≤ '9' := by simpa [isDigit_iff] using h
  rw [Bool.eq_false_iff, Ne, isNameStart_iff]
  -- every range of a name's first character lies above '9'
  rintro ⟨r, hr, hle, -⟩
  have habove : '9' < r.1 := by
    simp only [List.mem_cons, List.not_mem_nil, or_false] at hr
    obtain rfl | rfl | rfl := hr <;> decide
  exact Char.not_le.mpr habove (Char.le_trans hle hdigit)

theorem lexeme_of_lexeme? {c : Char} {cs w : List Char} {k : TokenKind}
    (h : lexeme? (c :: cs) = some (k, w)) : Lexeme c cs k w := by
  simp only [lexeme?] at h
  split at h
  · obtain ⟨rfl, rfl⟩ := Prod.mk.inj (Option.some.inj h)
    exact .word ‹_›
  split at h
  · obtain ⟨rfl, rfl⟩ := Prod.mk.inj (Option.some.inj h)
    exact .number ‹_›
  split at h
  · obtain ⟨hclose, h⟩ := Option.ite_none_right_eq_some.mp h
    obtain ⟨rfl, rfl⟩ := Prod.mk.inj (Option.some.inj h)
    exact .string ‹_› hclose
  split at h
  · obtain ⟨rfl, rfl⟩ := Prod.mk.inj (Option.some.inj h)
    exact .lineFeed ‹_›
  split at h
  · obtain ⟨hnext, h⟩ := Option.ite_none_right_eq_some.mp h
    obtain ⟨rfl, rfl⟩ := Prod.mk.inj (Option.some.inj h)
    exact .carriageReturn ‹_› hnext
  split at h
  · obtain ⟨rfl, rfl⟩ := Prod.mk.inj (Option.some.inj h)
    exact .delimiter ‹_›
  split at h
  · rename_i hpair
    obtain ⟨rfl, rfl⟩ := Prod.mk.inj (Option.some.inj h)
    exact .pair hpair.1 hpair.2
  · rename_i hpair
    obtain ⟨hc, h⟩ := Option.ite_none_right_eq_some.mp h
    obtain ⟨rfl, rfl⟩ := Prod.mk.inj (Option.some.inj h)
    exact .operator hc fun hjoins hnext => hpair ⟨hjoins, hnext⟩

theorem Lexeme.lexeme?_eq {c : Char} {cs w : List Char} {k : TokenKind} (h : Lexeme c cs k w) :
    lexeme? (c :: cs) = some (k, w) := by
  cases h with
  | word h => simp [lexeme?, h]
  | number h => simp [lexeme?, h, isNameStart_of_isDigit h]
  | string h hclose =>
      simp only [isQuote, Bool.or_eq_true, decide_eq_true_eq] at h
      rcases h with rfl | rfl <;> simp [lexeme?, isNameStart, isQuote, hclose]
  | lineFeed h => subst h; rfl
  | carriageReturn h hnext =>
      subst h
      simp [lexeme?, isNameStart, isQuote, hnext]
  | delimiter h =>
      simp only [isDelimiter, List.mem_cons, List.not_mem_nil, or_false, decide_eq_true_eq] at h
      rcases h with rfl | rfl | rfl | rfl | rfl | rfl | rfl <;> rfl
  | pair h hnext =>
      simp only [joinsEquals, List.mem_cons, List.not_mem_nil, or_false, decide_eq_true_eq] at h
      rcases h with rfl | rfl | rfl | rfl <;>
        simp [lexeme?, isNameStart, isQuote, isDelimiter, joinsEquals, hnext]
  | operator h hnext =>
      simp only [isOperator, List.mem_cons, List.not_mem_nil, or_false, decide_eq_true_eq] at h
      rcases h with rfl | rfl | rfl | rfl | rfl | rfl | rfl | rfl <;>
        simp_all [lexeme?, isNameStart, isQuote, isDelimiter, joinsEquals, isOperator]

/-! ### A lexeme matches a pattern -/

theorem quotedRun_mem (quote : Char) (cs : List Char) : quotedRun quote cs ∈ (stringParts quote)∗ := by
  fun_induction quotedRun quote cs with
  | case1 => exact Language.nil_mem_kstar _
  | case2 => exact Language.nil_mem_kstar _
  | case3 c cs hc ih => exact append_mem_kstar (mem_stringParts.mpr (Or.inr ⟨c, rfl, hc⟩)) ih
  | case4 => exact Language.nil_mem_kstar _
  | case5 c cs _ hc ih =>
      rw [not_or, not_or] at hc
      have hline : endsLine c = false := by simpa using hc.2.2
      exact append_mem_kstar (mem_stringParts.mpr (Or.inl ⟨c, rfl, hc.1, hc.2.1, hline⟩)) ih

theorem quotedRun_isPrefix (quote : Char) (cs : List Char) : quotedRun quote cs <+: cs := by
  fun_induction quotedRun quote cs with
  | case1 => exact List.prefix_rfl
  | case2 => exact List.nil_prefix
  | case3 c cs hc ih =>
      exact List.cons_prefix_cons.mpr ⟨rfl, List.cons_prefix_cons.mpr ⟨rfl, ih⟩⟩
  | case4 => exact List.nil_prefix
  | case5 c cs _ hc ih => exact List.cons_prefix_cons.mpr ⟨rfl, ih⟩

theorem fraction_isPrefix (cs : List Char) : fraction cs <+: cs := by
  fun_cases fraction cs with
  | case1 => exact List.nil_prefix
  | case2 cs => exact List.cons_prefix_cons.mpr ⟨rfl, List.takeWhile_prefix _⟩
  | case3 => exact List.nil_prefix

theorem fraction_eq_nil_or (cs : List Char) :
    fraction cs = [] ∨ ∃ part ∈ digits, fraction cs = '.' :: part := by
  fun_cases fraction cs with
  | case1 => exact Or.inl rfl
  | case2 cs hsome =>
      exact Or.inr ⟨_, mem_digits.mpr ⟨hsome, fun d => List.mem_takeWhile_imp⟩, rfl⟩
  | case3 => exact Or.inl rfl

theorem Lexeme.isPrefix {c : Char} {cs w : List Char} {k : TokenKind} (h : Lexeme c cs k w) :
    w <+: c :: cs := by
  have hpair {d : Char} (hd : cs.head? = some d) : [c, d] <+: c :: cs := by
    cases cs with
    | nil => simp at hd
    | cons => simp_all
  cases h with
  | word h => exact List.cons_prefix_cons.mpr ⟨rfl, List.takeWhile_prefix _⟩
  | number h =>
      have hparts := List.takeWhile_append_dropWhile (p := Char.isDigit) (l := cs)
      have hnumber := (List.prefix_append_right_inj (cs.takeWhile Char.isDigit)).mpr
        (fraction_isPrefix (cs.dropWhile Char.isDigit))
      rw [hparts] at hnumber
      exact List.cons_prefix_cons.mpr ⟨rfl, hnumber⟩
  | string h hclose =>
      have hparts := List.prefix_iff_eq_append.mp (quotedRun_isPrefix c cs)
      obtain ⟨behind, hbehind⟩ := List.head?_eq_some_iff.mp hclose
      rw [hbehind] at hparts
      exact List.cons_prefix_cons.mpr ⟨rfl, behind, by rw [List.append_assoc]; exact hparts⟩
  | lineFeed h => simp
  | carriageReturn h hnext => exact hpair hnext
  | delimiter h => simp
  | pair h hnext => exact hpair hnext
  | operator h hnext => simp

theorem Lexeme.mem {c : Char} {cs w : List Char} {k : TokenKind} (h : Lexeme c cs k w) : w ∈ lexemes := by
  rw [mem_lexemes]
  cases h with
  | word h => exact Or.inr (Or.inl (mem_names.mpr ⟨c, _, rfl, h, fun d => List.mem_takeWhile_imp⟩))
  | number h =>
      have hwhole : c :: cs.takeWhile Char.isDigit ∈ digits :=
        mem_digits.mpr ⟨by simp, List.forall_mem_cons.mpr ⟨h, fun d => List.mem_takeWhile_imp⟩⟩
      refine Or.inr (Or.inr (Or.inl (mem_numbers.mpr ⟨_, hwhole, ?_⟩)))
      rcases fraction_eq_nil_or (cs.dropWhile Char.isDigit) with hnone | ⟨part, hpart, hsome⟩
      · exact Or.inl (by rw [hnone, List.append_nil])
      · exact Or.inr ⟨part, hpart, by rw [hsome]⟩
  | string h hclose =>
      have hstring : c :: (quotedRun c cs ++ [c]) ∈ strings c :=
        mem_strings.mpr ⟨_, quotedRun_mem c cs, rfl⟩
      simp only [isQuote, Bool.or_eq_true, decide_eq_true_eq] at h
      rcases h with rfl | rfl <;> simp [hstring]
  | lineFeed h => simp [h, mem_lineBreaks]
  | carriageReturn h hnext => simp [h, mem_lineBreaks]
  | delimiter h =>
      have hall : ∀ d ∈ ['(', ')', '[', ']', ',', ':', '.'], String.ofList [d] ∈ delimiters := by
        simp [delimiters]
      have hc := hall c (by simpa [isDelimiter] using h)
      simp only [hc, true_or, or_true]
  | pair h hnext =>
      have hall : ∀ d ∈ ['=', '!', '<', '>'], String.ofList [d, '='] ∈ operators := by
        simp [operators]
      have hc := hall c (by simpa [joinsEquals] using h)
      simp only [hc, true_or, or_true]
  | operator h hnext =>
      have hall : ∀ d ∈ ['=', '<', '>', '+', '-', '*', '/', '%'], String.ofList [d] ∈ operators := by
        simp [operators]
      have hc := hall c (by simpa [isOperator] using h)
      simp only [hc, true_or, or_true]

/-! ### A word of a pattern is a part of the lexeme -/

/-- A text that begins with the word `w` has a lexeme that goes at least as far; if it goes no further, the
lexeme has the kind `kind`. -/
def Extends (w : List Char) (kind : TokenKind) (cs : List Char) : Prop :=
  ∃ k w', lexeme? cs = some (k, w') ∧ w <+: w' ∧ (w = w' → k = kind)

theorem extends_of_mem_names {w : List Char} (hw : w ∈ names) (rest : List Char) :
    Extends w (wordKind w) (w ++ rest) := by
  obtain ⟨c, cs, rfl, hc, hcs⟩ := mem_names.mp hw
  refine ⟨_, _, (Lexeme.word hc).lexeme?_eq, ?_, by rintro heq; rw [heq]⟩
  exact List.cons_prefix_cons.mpr ⟨rfl, isPrefix_takeWhile (List.prefix_append cs rest) hcs⟩

theorem extends_of_mem_numbers {w : List Char} (hw : w ∈ numbers) (rest : List Char) :
    Extends w .number (w ++ rest) := by
  obtain ⟨whole, hwhole, hw⟩ := mem_numbers.mp hw
  obtain ⟨hne, hdigits⟩ := mem_digits.mp hwhole
  obtain ⟨c, cs, rfl⟩ := List.exists_cons_of_ne_nil hne
  obtain ⟨hc, hcs⟩ := List.forall_mem_cons.mp hdigits
  rcases hw with rfl | ⟨part, hpart, rfl⟩
  · refine ⟨_, _, (Lexeme.number hc).lexeme?_eq, ?_, fun _ => rfl⟩
    have hprefix := isPrefix_takeWhile (List.prefix_append cs rest) hcs
    exact List.cons_prefix_cons.mpr ⟨rfl, hprefix.trans (List.prefix_append _ _)⟩
  · obtain ⟨hsome, hpart⟩ := mem_digits.mp hpart
    have hpoint : Char.isDigit '.' = false := rfl
    have hwhole : (cs ++ '.' :: part ++ rest).takeWhile Char.isDigit = cs := by
      rw [List.append_assoc, List.takeWhile_append_of_pos hcs]
      simp [hpoint]
    have hbehind : (cs ++ '.' :: part ++ rest).dropWhile Char.isDigit = '.' :: (part ++ rest) := by
      rw [List.append_assoc, List.dropWhile_append_of_pos hcs]
      simp [hpoint]
    have hfraction : fraction ('.' :: (part ++ rest)) = '.' :: (part ++ rest.takeWhile Char.isDigit) := by
      rw [fraction, List.takeWhile_append_of_pos hpart]
      cases part with
      | nil => exact absurd rfl hsome
      | cons => rfl
    have hlexeme : lexeme? (c :: (cs ++ '.' :: part ++ rest)) = _ := (Lexeme.number hc).lexeme?_eq
    rw [hwhole, hbehind, hfraction] at hlexeme
    exact ⟨_, _, hlexeme, by simp, fun _ => rfl⟩

/-- The contents of a string are run through up to the quote behind them. -/
theorem quotedRun_append {quote : Char} {body : List Char} (hquote : isQuote quote = true)
    (hbody : body ∈ (stringParts quote)∗) (rest : List Char) :
    quotedRun quote (body ++ quote :: rest) = body := by
  obtain ⟨parts, rfl, hparts⟩ := Language.mem_kstar.mp hbody
  clear hbody
  have hbackslash : quote ≠ '\\' := by rintro rfl; simp [isQuote] at hquote
  induction parts with
  | nil =>
      rw [List.flatten_nil, List.nil_append, quotedRun]
      · simp
      · exact fun c cs h => absurd h hbackslash
  | cons part parts ih =>
      obtain ⟨hpart, hrest⟩ := List.forall_mem_cons.mp hparts
      have hinside := ih hrest
      rcases mem_stringParts.mp hpart with ⟨c, rfl, hc, hescape, hline⟩ | ⟨c, rfl, hc⟩
      · rw [List.flatten_cons, List.append_assoc, List.singleton_append, quotedRun]
        · simp [hc, hescape, hline, hinside]
        · exact fun d ds h => absurd h hescape
      · simp [quotedRun, hc, hinside]

theorem extends_of_mem_strings {w : List Char} {quote : Char} (hquote : isQuote quote = true)
    (hw : w ∈ strings quote) (rest : List Char) : Extends w .string (w ++ rest) := by
  obtain ⟨body, hbody, rfl⟩ := mem_strings.mp hw
  have hrun : quotedRun quote (body ++ [quote] ++ rest) = body := by
    rw [List.append_assoc]
    exact quotedRun_append hquote hbody rest
  have hclose : ((body ++ [quote] ++ rest).drop (quotedRun quote (body ++ [quote] ++ rest)).length).head? =
      some quote := by
    rw [hrun]
    simp
  refine ⟨_, _, (Lexeme.string hquote hclose).lexeme?_eq, ?_, fun _ => rfl⟩
  rw [hrun]

theorem extends_of_mem_operators {w : List Char} (hw : String.ofList w ∈ operators) (rest : List Char) :
    Extends w .operator (w ++ rest) := by
  have hall : ∀ text ∈ operators, (∃ c, text.toList = [c, '='] ∧ joinsEquals c = true) ∨
      ∃ c, text.toList = [c] ∧ isOperator c = true := by
    simp [operators, joinsEquals, isOperator]
  have hshape := hall _ hw
  rw [String.toList_ofList] at hshape
  rcases hshape with ⟨c, rfl, hc⟩ | ⟨c, rfl, hc⟩
  · exact ⟨_, _, (Lexeme.pair hc rfl).lexeme?_eq, List.prefix_rfl, fun _ => rfl⟩
  · by_cases hnext : joinsEquals c = true ∧ rest.head? = some '='
    · exact ⟨_, _, (Lexeme.pair hnext.1 hnext.2).lexeme?_eq, by simp, fun _ => rfl⟩
    · rw [not_and] at hnext
      exact ⟨_, _, (Lexeme.operator hc hnext).lexeme?_eq, List.prefix_rfl, fun _ => rfl⟩

theorem extends_of_mem_delimiters {w : List Char} (hw : String.ofList w ∈ delimiters) (rest : List Char) :
    Extends w .delimiter (w ++ rest) := by
  have hall : ∀ text ∈ delimiters, ∃ c, text.toList = [c] ∧ isDelimiter c = true := by
    simp [delimiters, isDelimiter]
  have hshape := hall _ hw
  rw [String.toList_ofList] at hshape
  obtain ⟨c, rfl, hc⟩ := hshape
  exact ⟨_, _, (Lexeme.delimiter hc).lexeme?_eq, List.prefix_rfl, fun _ => rfl⟩

theorem extends_of_mem_lineBreaks {w : List Char} (hw : w ∈ lineBreaks) (rest : List Char) :
    Extends w .lineBreak (w ++ rest) := by
  rcases mem_lineBreaks.mp hw with rfl | rfl
  · exact ⟨_, _, (Lexeme.lineFeed rfl).lexeme?_eq, List.prefix_rfl, fun _ => rfl⟩
  · exact ⟨_, _, (Lexeme.carriageReturn rfl rfl).lexeme?_eq, List.prefix_rfl, fun _ => rfl⟩

theorem mem_names_of_mem_keywords {w : List Char} (hw : String.ofList w ∈ keywords) : w ∈ names := by
  have hall : ∀ text ∈ keywords, text.toList ∈ names := by
    simp [keywords, mem_names, isNameStart, isNameChar]
  simpa using hall _ hw

theorem extends_of_mem_words {p : Pattern} (hp : p ∈ patterns) {w : List Char} (hw : w ∈ p.words)
    (rest : List Char) :
    Extends w (if String.ofList w ∈ keywords then .keyword else p.kind) (w ++ rest) := by
  by_cases hkeyword : String.ofList w ∈ keywords
  · have hextends := extends_of_mem_names (mem_names_of_mem_keywords hkeyword) rest
    rwa [wordKind, if_pos hkeyword] at *
  · rw [if_neg hkeyword]
    rcases mem_patterns.mp hp with ⟨text, htext, rfl⟩ | rfl | rfl | rfl | rfl | ⟨text, htext, rfl⟩ |
      ⟨text, htext, rfl⟩ | rfl
    · rw [mem_exactly_iff_ofList.mp hw] at hkeyword
      exact absurd htext hkeyword
    · have hextends := extends_of_mem_names hw rest
      rwa [wordKind, if_neg hkeyword] at hextends
    · exact extends_of_mem_numbers hw rest
    · exact extends_of_mem_strings rfl hw rest
    · exact extends_of_mem_strings rfl hw rest
    · exact extends_of_mem_operators (mem_exactly_iff_ofList.mp hw ▸ htext) rest
    · exact extends_of_mem_delimiters (mem_exactly_iff_ofList.mp hw ▸ htext) rest
    · exact extends_of_mem_lineBreaks hw rest

/-! ### The lexeme at the front of a text -/

/-- The lexeme is the longest word of the vocabulary. -/
theorem isLongest_of_lexeme? {cs w : List Char} {k : TokenKind} (h : lexeme? cs = some (k, w)) :
    IsLongest lexemes cs w := by
  cases cs with
  | nil => simp [lexeme?] at h
  | cons c cs =>
      have hlexeme := lexeme_of_lexeme? h
      refine ⟨hlexeme.mem, hlexeme.isPrefix, ?_⟩
      rintro v ⟨p, hp, hv⟩ ⟨rest, hrest⟩
      obtain ⟨k', w', hlonger, hprefix, -⟩ := extends_of_mem_words hp hv rest
      rw [hrest, h] at hlonger
      obtain ⟨-, rfl⟩ := Prod.mk.inj (Option.some.inj hlonger)
      exact hprefix.length_le

/-- Reserved words are keywords, and any other lexeme has the kind of each pattern that it matches. -/
theorem kind_of_lexeme? {cs w : List Char} {k : TokenKind} (h : lexeme? cs = some (k, w)) {p : Pattern}
    (hp : p ∈ patterns) (hw : w ∈ p.words) :
    k = if String.ofList w ∈ keywords then .keyword else p.kind := by
  obtain ⟨rest, hrest⟩ := (isLongest_of_lexeme? h).isPrefix
  obtain ⟨k', w', hlonger, -, hkind⟩ := extends_of_mem_words hp hw rest
  rw [hrest, h] at hlonger
  obtain ⟨rfl, rfl⟩ := Prod.mk.inj (Option.some.inj hlonger)
  exact hkind rfl

theorem kind_eq_keyword_iff {cs w : List Char} {k : TokenKind} (h : lexeme? cs = some (k, w)) :
    k = .keyword ↔ String.ofList w ∈ keywords := by
  obtain ⟨p, hp, hw⟩ := (isLongest_of_lexeme? h).mem
  have hkind := kind_of_lexeme? h hp hw
  by_cases hkeyword : String.ofList w ∈ keywords
  · simp [hkind, hkeyword]
  · have hp' : p.kind ≠ .keyword := by
      rcases mem_patterns.mp hp with ⟨text, htext, rfl⟩ | rfl | rfl | rfl | rfl | ⟨text, htext, rfl⟩ |
        ⟨text, htext, rfl⟩ | rfl
      · rw [mem_exactly_iff_ofList.mp hw] at hkeyword
        exact absurd htext hkeyword
      all_goals simp
    simp [hkind, hkeyword, hp']

/-- Where there is no lexeme, no pattern has a word. -/
theorem not_isPrefix_of_lexeme? {cs : List Char} (h : lexeme? cs = none) : ∀ w ∈ lexemes, ¬w <+: cs := by
  rintro w ⟨p, hp, hw⟩ ⟨rest, rfl⟩
  obtain ⟨k, w', hlexeme, -⟩ := extends_of_mem_words hp hw rest
  simp [h] at hlexeme

/-- The lexeme in front of a text hangs on the words that stand there. -/
theorem lexeme?_congr {cs ds : List Char} (h : ∀ w ∈ lexemes, w <+: cs ↔ w <+: ds) : lexeme? cs = lexeme? ds := by
  cases hfound : lexeme? cs with
  | none =>
      cases hother : lexeme? ds with
      | none => rfl
      | some found =>
          have hlongest := isLongest_of_lexeme? hother
          exact absurd ((h _ hlongest.mem).mpr hlongest.isPrefix) (not_isPrefix_of_lexeme? hfound _ hlongest.mem)
  | some found =>
      obtain ⟨k, w⟩ := found
      have hlongest := isLongest_of_lexeme? hfound
      have hprefix := (h w hlongest.mem).mp hlongest.isPrefix
      cases hother : lexeme? ds with
      | none => exact absurd hprefix (not_isPrefix_of_lexeme? hother w hlongest.mem)
      | some found =>
          obtain ⟨k', w'⟩ := found
          have hlongest' := isLongest_of_lexeme? hother
          have hle := hlongest.longest w' hlongest'.mem ((h w' hlongest'.mem).mpr hlongest'.isPrefix)
          have hge := hlongest'.longest w hlongest.mem hprefix
          obtain rfl : w = w' :=
            (List.prefix_of_prefix_length_le hprefix hlongest'.isPrefix hge).eq_of_length_le hle
          obtain ⟨p, hp, hw⟩ := hlongest.mem
          rw [kind_of_lexeme? hfound hp hw, kind_of_lexeme? hother hp hw]

/-- A word of the vocabulary is a lexeme by itself. -/
theorem exists_lexeme?_of_mem_lexemes {w : List Char} (hw : w ∈ lexemes) : ∃ k, lexeme? w = some (k, w) := by
  obtain ⟨p, hp, hwords⟩ := hw
  obtain ⟨k, w', hlexeme, hprefix, -⟩ := extends_of_mem_words hp hwords []
  rw [List.append_nil] at hlexeme
  obtain rfl := hprefix.eq_of_length_le (isLongest_of_lexeme? hlexeme).isPrefix.length_le
  exact ⟨k, hlexeme⟩

end Vocabulary

namespace Scanner

open Vocabulary

theorem rest_eq_gap_append (s : Scanner) : s.rest = gap s.rest ++ s.skipGap.rest :=
  (List.prefix_iff_eq_append.mp (gap_isPrefix s.rest)).symm

/-- At each place the scanner skips the longest gap and replies with the longest word of the vocabulary in
front of the text that is left. It replies with the end token exactly if no text is left, and refuses the
text exactly if there is some and no pattern has a word in front of it. -/
theorem pull_takes_longest (s : Scanner) :
    ∃ gap rest, s.rest = gap ++ rest ∧ IsLongest gaps s.rest gap ∧
      ((∃ t, s.pull.1 = .ok t ∧ t.kind = .endOfInput) ↔ rest = []) ∧
      (∀ t, s.pull.1 = .ok t → t.kind ≠ .endOfInput →
        t.text.toList ≠ [] ∧ IsLongest lexemes rest t.text.toList ∧
          (t.kind = .keyword ↔ t.text ∈ keywords) ∧
          (t.text ∉ keywords → ∀ p ∈ patterns, t.text.toList ∈ p.words → t.kind = p.kind)) ∧
      ((∃ line column text, s.pull.1 = .error (.unexpectedCharacter line column text)) ↔
        rest ≠ [] ∧ ∀ w ∈ lexemes, w ≠ [] → ¬w <+: rest) ∧
      ∀ e, s.pull.1 = .error e → ∃ line column text, e = .unexpectedCharacter line column text := by
  refine ⟨gap s.rest, s.skipGap.rest, s.rest_eq_gap_append,
    ⟨gap_mem s.rest, gap_isPrefix s.rest, fun v hv hprefix => (isPrefix_gap hv hprefix).length_le⟩, ?_⟩
  rcases s.pull_cases with ⟨k, w, hlexeme, hpull⟩ | ⟨hrest, hpull⟩ | ⟨hrest, hlexeme, hpull⟩
  · obtain ⟨hrest, hscanned⟩ := lexeme?_spec hlexeme
    have hlongest := isLongest_of_lexeme? hlexeme
    have htext : (s.skipGap.tokenAt k w).text.toList = w := String.toList_ofList
    rw [hpull]
    refine ⟨?_, ?_, ?_, ?_⟩
    · simp [tokenAt, hscanned.ne_endOfInput, hrest]
    · rintro t ht -
      obtain rfl := Except.ok.inj ht
      rw [htext]
      refine ⟨hscanned.1, hlongest, kind_eq_keyword_iff hlexeme, fun hkeyword p hp hw => ?_⟩
      exact (kind_of_lexeme? hlexeme hp hw).trans (if_neg hkeyword)
    · simp only [reduceCtorEq, exists_false, false_iff, not_and, not_forall, not_not]
      exact fun _ => ⟨w, hlongest.mem, hscanned.1, hlongest.isPrefix⟩
    · simp
  · simp [hpull, hrest, endToken, Token.endOfInput]
  · rw [hpull]
    refine ⟨by simp [hrest], by simp, ?_, by simp⟩
    simpa [hrest] using fun w hw _ => not_isPrefix_of_lexeme? hlexeme w hw

end Scanner

end LayoutRule
