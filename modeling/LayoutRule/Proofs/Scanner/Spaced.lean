import LayoutRule.Proofs.Scanner.Joined
import LayoutRule.Proofs.Scanner.Samples

/-! # Spaced lexemes

A blank ends every lexeme but a string, and a string ends with its quote whatever stands behind it. So the lexeme in
front of a text is the same with a blank behind the text, and lexemes with single spaces between them are scanned one
by one. -/

namespace LayoutRule

open TokenSource

namespace Vocabulary

variable {c : Char} {cs w : List Char} {k : TokenKind}

/-- A lexeme is one by itself, of the same kind as in a text. -/
theorem lexeme?_self (h : lexeme? cs = some (k, w)) : lexeme? w = some (k, w) := by
  obtain ⟨p, hp, hw⟩ := (isLongest_of_lexeme? h).mem
  obtain ⟨k', hself⟩ := exists_lexeme?_of_mem_lexemes ⟨p, hp, hw⟩
  rw [hself, kind_of_lexeme? hself hp hw, kind_of_lexeme? h hp hw]

/-- No lexeme begins with a blank or a number sign. -/
theorem head_of_lexeme? (h : lexeme? (c :: cs) = some (k, w)) : isBlank c = false ∧ c ≠ '#' := by
  constructor
  · refine Bool.eq_false_iff.mpr fun hblank => ?_
    simp only [isBlank, Bool.or_eq_true, decide_eq_true_eq] at hblank
    rcases hblank with (rfl | rfl) | rfl <;>
      simp [lexeme?, isNameStart, isQuote, isDelimiter, joinsEquals, isOperator] at h
  · rintro rfl
    simp [lexeme?, isNameStart, isQuote, isDelimiter, joinsEquals, isOperator] at h

/-! ### In front of a blank -/

section Blank

variable {behind : List Char} (hblank : ∀ d ∈ behind.head?, isBlank d = true)

include hblank

/-- A property that no blank has does not hold behind a text. -/
theorem head_of_blank {p : Char → Bool} (hp : p ' ' = false ∧ p '\t' = false ∧ p '\x0c' = false) :
    ∀ d ∈ behind.head?, p d = false := by
  intro d hd
  have hd := hblank d hd
  simp only [isBlank, Bool.or_eq_true, decide_eq_true_eq] at hd
  rcases hd with (rfl | rfl) | rfl
  · exact hp.1
  · exact hp.2.1
  · exact hp.2.2

theorem fraction_append_of_blank (cs : List Char) : fraction (cs ++ behind) = fraction cs := by
  have hdigits := Text.takeWhile_append_of_head (head_of_blank hblank (p := Char.isDigit) (by decide))
  have hpoint := head_of_blank hblank (p := (· = '.')) (by decide)
  cases cs with
  | nil =>
      cases behind with
      | nil => rfl
      | cons d behind =>
          have hd : d ≠ '.' := by simpa using hpoint d rfl
          rw [List.nil_append, fraction]
          · rfl
          · simpa using hd
  | cons d cs =>
      by_cases hd : d = '.'
      · subst hd
        rw [List.cons_append, fraction, fraction, hdigits]
      · rw [List.cons_append, fraction, fraction] <;> simpa using hd

theorem Lexeme.append_of_blank (h : Lexeme c cs k w) : Lexeme c (cs ++ behind) k w := by
  have hhead {d : Char} (hd : cs.head? = some d) : (cs ++ behind).head? = some d := by
    obtain ⟨ds, rfl⟩ := List.head?_eq_some_iff.mp hd
    rfl
  cases h with
  | word h =>
      have htake := Text.takeWhile_append_of_head (head_of_blank hblank (p := isNameChar) (by decide)) cs
      exact htake ▸ .word h
  | number h =>
      have hdigits := head_of_blank hblank (p := Char.isDigit) (by decide)
      have hnumber : Lexeme c (cs ++ behind) _ _ := .number h
      rwa [Text.takeWhile_append_of_head hdigits, Text.dropWhile_append_of_head hdigits,
        fraction_append_of_blank hblank] at hnumber
  | string h hclose =>
      obtain ⟨rest, hrest⟩ := List.head?_eq_some_iff.mp hclose
      have hcs := List.prefix_iff_eq_append.mp (quotedRun_isPrefix c cs)
      have hrun : quotedRun c (cs ++ behind) = quotedRun c cs := by
        conv_lhs => rw [← hcs, hrest, List.append_assoc, List.cons_append]
        exact quotedRun_append h (quotedRun_mem c cs) _
      have hclose : ((cs ++ behind).drop (quotedRun c (cs ++ behind)).length).head? = some c := by
        rw [hrun, List.drop_append_of_le_length (quotedRun_isPrefix c cs).length_le, hrest]
        rfl
      exact hrun ▸ .string h hclose
  | lineFeed h => exact .lineFeed h
  | carriageReturn h hnext => exact .carriageReturn h (hhead hnext)
  | delimiter h => exact .delimiter h
  | pair h hnext => exact .pair h (hhead hnext)
  | operator h hnext =>
      refine .operator h fun hjoins heq => ?_
      cases cs with
      | nil => cases head_of_blank hblank (p := (· = '=')) (by decide) '=' heq
      | cons d cs => exact hnext hjoins heq

/-- A blank behind a text changes nothing about the lexeme in front of it. -/
theorem lexeme?_append_of_blank (h : lexeme? cs = some (k, w)) : lexeme? (cs ++ behind) = some (k, w) := by
  cases cs with
  | nil => cases h
  | cons c cs => exact ((lexeme_of_lexeme? h).append_of_blank hblank).lexeme?_eq

end Blank

end Vocabulary

/-! ### Tokens with spaces between them -/

/-- The text of a token is a lexeme of its kind. -/
def Token.IsLexeme (t : Token) : Prop := Vocabulary.lexeme? t.text.toList = some (t.kind, t.text.toList)

/-- Tokens with the same kinds and texts, wherever they stand. -/
def Token.SameLexeme (t u : Token) : Prop := t.kind = u.kind ∧ t.text = u.text

namespace Scanner

/-- Every token but the end token is a lexeme. -/
theorem isLexeme_of_reads {s s' : Scanner} {ts : List Token} {r : Reply} (h : Reads s ts r s') :
    ∀ t ∈ ts, t.IsLexeme := by
  induction h with
  | stop => simp
  | @token s t s' ts r s'' hp ht _ ih =>
      refine List.forall_mem_cons.mpr ⟨?_, ih⟩
      have hp : s.pull = (.ok t, s') := hp
      rcases s.pull_cases with ⟨k, w, hlexeme, hpull⟩ | ⟨-, hpull⟩ | ⟨-, -, hpull⟩
      · obtain rfl := Except.ok.inj (congrArg Prod.fst (hp.symm.trans hpull))
        simpa [Token.IsLexeme, tokenAt] using Vocabulary.lexeme?_self hlexeme
      · obtain rfl := Except.ok.inj (congrArg Prod.fst (hp.symm.trans hpull))
        cases ht
      · cases congrArg Prod.fst (hp.symm.trans hpull)

/-- A token in front of what is left is scanned, if it is a lexeme and the text ends behind it or goes on with a
blank. -/
theorem pull_isLexeme {s : Scanner} {t : Token} {behind : List Char} (ht : t.IsLexeme)
    (hrest : s.skipGap.rest = t.text.toList ++ behind) (hblank : ∀ d ∈ behind.head?, Vocabulary.isBlank d = true) :
    ∃ u s', s.pull = (.ok u, s') ∧ u.isEnd = false ∧ u.SameLexeme t ∧ s'.rest = behind := by
  have hlexeme := Vocabulary.lexeme?_append_of_blank hblank ht
  rw [← hrest] at hlexeme
  rcases s.pull_cases with ⟨k, w, hfound, hpull⟩ | ⟨hnone, -⟩ | ⟨-, hnone, -⟩
  · obtain ⟨rfl, rfl⟩ := Prod.mk.inj (Option.some.inj (hfound.symm.trans hlexeme))
    refine ⟨_, _, hpull, ?_, ⟨rfl, String.ofList_toList⟩, ?_⟩
    · simpa [tokenAt, Token.isEnd] using (Vocabulary.lexeme?_spec hlexeme).2.ne_endOfInput
    · simp [skip, hrest]
  · rw [hnone] at hlexeme
    cases hlexeme
  · cases hnone.symm.trans hlexeme

/-- Where nothing is left, the end token comes. -/
theorem reads_nil_of_skipGap {s : Scanner} (h : s.skipGap.rest = []) : Reads s [] (.ok s.skipGap.endToken) s.skipGap := by
  have hpull : s.pull = (.ok s.skipGap.endToken, s.skipGap) := by simp [pull, read, Vocabulary.lexeme?, h]
  exact .stop hpull rfl

/-- Spaces in front of a lexeme are the whole gap. -/
theorem skipGap_spaces {s : Scanner} {t : Token} {behind : List Char} (ht : t.IsLexeme) (n : ℕ)
    (hrest : s.rest = List.replicate n ' ' ++ (t.text.toList ++ behind)) :
    s.skipGap.rest = t.text.toList ++ behind := by
  obtain ⟨hne, -⟩ := Vocabulary.lexeme?_spec ht
  obtain ⟨c, cs, htext⟩ := List.exists_cons_of_ne_nil hne
  rw [Token.IsLexeme, htext] at ht
  obtain ⟨hblank, hcomment⟩ := Vocabulary.head_of_lexeme? ht
  have hgap := Vocabulary.gap_of_blanks hblank hcomment n (cs ++ behind)
  rw [skipGap, hrest, htext, List.cons_append, hgap, skip, hrest, htext, List.cons_append, List.drop_left]

end Scanner

/-- The texts of tokens with single spaces between them. -/
def spaced (ts : List Token) : String := " ".intercalate (ts.map Token.text)

theorem toList_spaced_cons_cons (t u : Token) (ts : List Token) :
    (spaced (t :: u :: ts)).toList = t.text.toList ++ ' ' :: (spaced (u :: ts)).toList := by
  simp [spaced, String.intercalate_cons_cons]

theorem exists_toList_spaced_cons (t : Token) (ts : List Token) :
    ∃ behind, (spaced (t :: ts)).toList = t.text.toList ++ behind := by
  cases ts with
  | nil => exact ⟨[], by simp [spaced]⟩
  | cons u ts => exact ⟨_, toList_spaced_cons_cons t u ts⟩

namespace Scanner

/-- Lexemes with single spaces between them are scanned one by one. -/
theorem exists_reads_of_spaced {ts : List Token} (hts : ∀ t ∈ ts, t.IsLexeme) {s : Scanner}
    (hrest : s.skipGap.rest = (spaced ts).toList) :
    ∃ us final s', Reads s us (.ok final) s' ∧ final.isEnd = true ∧ List.Forall₂ Token.SameLexeme us ts := by
  induction ts generalizing s with
  | nil => exact ⟨[], _, _, reads_nil_of_skipGap hrest, rfl, .nil⟩
  | cons t ts ih =>
      obtain ⟨ht, hts⟩ := List.forall_mem_cons.mp hts
      cases ts with
      | nil =>
          have hrest : s.skipGap.rest = t.text.toList ++ [] := by simpa [spaced] using hrest
          obtain ⟨u, s', hpull, hu, hsame, hbehind⟩ := pull_isLexeme ht hrest (by simp)
          have hnone : s'.skipGap.rest = [] := by simp [skipGap, skip, hbehind]
          exact ⟨[u], _, _, .token hpull hu (reads_nil_of_skipGap hnone), rfl, .cons hsame .nil⟩
      | cons v ts =>
          rw [toList_spaced_cons_cons] at hrest
          obtain ⟨u, s', hpull, hu, hsame, hbehind⟩ := pull_isLexeme ht hrest (by simp [Vocabulary.isBlank])
          obtain ⟨more, hmore⟩ := exists_toList_spaced_cons v ts
          have hnext := skipGap_spaces (hts v List.mem_cons_self) 1 (hmore ▸ hbehind)
          obtain ⟨us, final, s'', hreads, hfinal, hall⟩ := ih hts (hnext.trans hmore.symm)
          exact ⟨u :: us, final, s'', .token hpull hu hreads, hfinal, .cons hsame hall⟩

end Scanner

/-- Lexemes with single spaces between them are read to one token for each, and the end token. -/
theorem exists_tokenize_spaced {ts : List Token} (hts : ∀ t ∈ ts, t.IsLexeme) :
    ∃ us final, tokenize (spaced ts) = .ok (us ++ [final]) ∧ final.isEnd = true ∧
      List.Forall₂ Token.SameLexeme us ts := by
  have hrest : (Scanner.ofText (spaced ts)).skipGap.rest = (spaced ts).toList := by
    cases ts with
    | nil => rfl
    | cons t ts =>
        obtain ⟨behind, hbehind⟩ := exists_toList_spaced_cons t ts
        exact (Scanner.skipGap_spaces (hts t List.mem_cons_self) 0 hbehind).trans hbehind.symm
  obtain ⟨us, final, s', hreads, hfinal, hsame⟩ := Scanner.exists_reads_of_spaced hts hrest
  exact ⟨us, final, tokenize_of_reads hreads, hfinal, hsame⟩

end LayoutRule
