import LayoutRule.Proofs.Source.Drain
import Mathlib.Data.List.TakeWhile

/-! # Lines of scanned tokens

A line feed stands in no gap and in no lexeme but a line break, so a scanned token carries the number of
the line it stands on, and the line changes only behind a line break. -/

namespace LayoutRule

/-! ### Characters that end a line -/

namespace Vocabulary

private theorem newline_notMem_takeWhile {p : Char → Bool} (hp : p '\n' = false) (cs : List Char) :
    '\n' ∉ cs.takeWhile p := by
  intro h
  have hnewline : p '\n' = true := List.mem_takeWhile_imp h
  simp [hp] at hnewline

theorem newline_notMem_gap (cs : List Char) : '\n' ∉ gap cs := by
  induction cs with
  | nil => simp [gap]
  | cons c cs ih =>
      simp only [gap]
      split
      · rename_i hc
        have hne : '\n' ≠ c := by rintro rfl; exact absurd hc (by decide)
        simp [hne, ih]
      · split
        · rename_i hc
          subst hc
          simp [newline_notMem_takeWhile (p := (!endsLine ·)) (by decide)]
        · simp

theorem newline_notMem_quotedRun (quote : Char) (cs : List Char) : '\n' ∉ quotedRun quote cs := by
  fun_induction quotedRun quote cs with
  | case1 => simp
  | case2 => simp
  | case3 c cs hc ih =>
      have hne : '\n' ≠ c := Ne.symm hc
      simp [hne, ih]
  | case4 => simp
  | case5 c cs _ hc ih =>
      have hne : '\n' ≠ c := by
        rintro rfl
        exact hc (Or.inr (Or.inr (by decide)))
      simp [hne, ih]

theorem newline_notMem_fraction (cs : List Char) : '\n' ∉ fraction cs := by
  fun_cases fraction cs with
  | case1 => simp
  | case2 cs =>
      simp [newline_notMem_takeWhile (p := Char.isDigit) (by decide)]
  | case3 => simp

theorem isOrdinary_wordKind (cs : List Char) : (wordKind cs).isOrdinary = true := by
  unfold wordKind
  split <;> rfl

/-- What a scanned lexeme is: a line break, with one line feed in it, or a part of a statement, with none. -/
def Scanned (kind : TokenKind) (lexeme : List Char) : Prop :=
  lexeme ≠ [] ∧ (kind = .lineBreak ∧ lexeme.count '\n' = 1 ∨ kind.isOrdinary = true ∧ '\n' ∉ lexeme)

private theorem Scanned.of_head {kind : TokenKind} {c : Char} {cs : List Char}
    (hk : kind.isOrdinary = true) (hc : c ≠ '\n') (hcs : '\n' ∉ cs) : Scanned kind (c :: cs) :=
  ⟨by simp, Or.inr ⟨hk, by simp [Ne.symm hc, hcs]⟩⟩

theorem Scanned.ne_endOfInput {kind : TokenKind} {lexeme : List Char} (h : Scanned kind lexeme) :
    kind ≠ .endOfInput := by
  rintro rfl
  simp [Scanned, TokenKind.isOrdinary] at h

theorem lexeme?_spec {cs lexeme : List Char} {kind : TokenKind} (h : lexeme? cs = some (kind, lexeme)) :
    cs ≠ [] ∧ Scanned kind lexeme := by
  cases cs with
  | nil => simp [lexeme?] at h
  | cons c cs =>
      refine ⟨by simp, ?_⟩
      simp only [lexeme?] at h
      by_cases hnewline : c = '\n'
      · subst hnewline
        have h : some (TokenKind.lineBreak, ['\n']) = some (kind, lexeme) := h
        obtain ⟨rfl, rfl⟩ := Prod.mk.inj (Option.some.inj h)
        exact ⟨by simp, Or.inl ⟨rfl, rfl⟩⟩
      split at h
      · obtain ⟨rfl, rfl⟩ := Prod.mk.inj (Option.some.inj h)
        exact .of_head (isOrdinary_wordKind _) hnewline (newline_notMem_takeWhile rfl cs)
      split at h
      · obtain ⟨rfl, rfl⟩ := Prod.mk.inj (Option.some.inj h)
        refine .of_head rfl hnewline ?_
        simp [newline_notMem_takeWhile, newline_notMem_fraction]
      split at h
      · simp only [Option.ite_none_right_eq_some] at h
        obtain ⟨rfl, rfl⟩ := Prod.mk.inj (Option.some.inj h.2)
        refine .of_head rfl hnewline ?_
        simp [newline_notMem_quotedRun, Ne.symm hnewline]
      split at h
      · simp only [Option.ite_none_right_eq_some] at h
        obtain ⟨rfl, rfl⟩ := Prod.mk.inj (Option.some.inj h.2)
        exact ⟨by simp, Or.inl ⟨rfl, by simp [hnewline]⟩⟩
      split at h
      · obtain ⟨rfl, rfl⟩ := Prod.mk.inj (Option.some.inj h)
        exact .of_head rfl hnewline (by simp)
      split at h
      · obtain ⟨rfl, rfl⟩ := Prod.mk.inj (Option.some.inj h)
        exact .of_head rfl hnewline (by simp)
      simp only [Option.ite_none_right_eq_some] at h
      obtain ⟨rfl, rfl⟩ := Prod.mk.inj (Option.some.inj h.2)
      exact .of_head rfl hnewline (by simp)

end Vocabulary

/-! ### Lines of positions -/

namespace Position

theorem advance_line (p : Position) (cs : List Char) :
    (p.advance cs).line = p.line + cs.count '\n' := by
  induction cs generalizing p with
  | nil => simp
  | cons c cs ih =>
      rw [advance_cons, ih]
      by_cases hc : c = '\n'
      · simp [step, hc]
        omega
      · simp [step, hc]

end Position

/-! ### What a scanner hands out -/

namespace Scanner

open TokenSource

@[simp] theorem skipGap_line (s : Scanner) : s.skipGap.position.line = s.position.line := by
  have hgap := List.count_eq_zero_of_not_mem (Vocabulary.newline_notMem_gap s.rest)
  simp [skipGap, skip, Position.advance_line, hgap]

/-- What a pull does: it takes a lexeme, finds the end of the text, or refuses some text. -/
theorem pull_cases (s : Scanner) :
    (∃ k w, Vocabulary.lexeme? s.skipGap.rest = some (k, w) ∧
      s.pull = (.ok (s.skipGap.tokenAt k w), s.skipGap.skip w)) ∨
    (s.skipGap.rest = [] ∧ s.pull = (.ok s.skipGap.endToken, s.skipGap)) ∨
    (s.skipGap.rest ≠ [] ∧ Vocabulary.lexeme? s.skipGap.rest = none ∧
      s.pull = (.error (.unexpectedCharacter s.skipGap.position.line s.skipGap.position.column
          (String.ofList (Vocabulary.stray s.skipGap.rest))),
        s.skipGap.skip (Vocabulary.stray s.skipGap.rest))) := by
  cases hlexeme : Vocabulary.lexeme? s.skipGap.rest with
  | some found => exact Or.inl ⟨_, _, rfl, by simp [pull, read, hlexeme]⟩
  | none =>
      right
      by_cases hrest : s.skipGap.rest = []
      · exact Or.inl ⟨hrest, by simp [pull, read, Vocabulary.lexeme?, hrest]⟩
      · exact Or.inr ⟨hrest, rfl, by simp [pull, read, hlexeme, hrest]⟩

/-- A token is the end token, or takes some of the text and counts its line break. -/
theorem pull_eq_ok {s s' : Scanner} {t : Token} (h : s.pull = (.ok t, s')) :
    t.line = s.position.line ∧
      (t.isEnd = true ∨
        s'.rest.length < s.rest.length ∧
          (t.kind = .lineBreak ∧ s'.position.line = s.position.line + 1 ∨
            t.kind.isOrdinary = true ∧ s'.position.line = s.position.line)) := by
  have hline := s.skipGap_line
  have hlength : s.skipGap.rest.length ≤ s.rest.length := by simp [skipGap, skip]
  rcases s.pull_cases with ⟨kind, lexeme, hlexeme, hpull⟩ | ⟨-, hpull⟩ | ⟨-, -, hpull⟩
  · obtain ⟨hrest, hne, hkind⟩ := Vocabulary.lexeme?_spec hlexeme
    rw [h] at hpull
    simp only [Prod.mk.injEq, Except.ok.injEq] at hpull
    obtain ⟨rfl, rfl⟩ := hpull
    have hsome := List.length_pos_of_ne_nil hrest
    have htaken := List.length_pos_of_ne_nil hne
    refine ⟨hline, Or.inr ⟨?_, ?_⟩⟩
    · simp only [skip, List.length_drop]
      omega
    · rcases hkind with ⟨hk, hcount⟩ | ⟨hk, hnone⟩
      · exact Or.inl ⟨hk, by simp [skip, Position.advance_line, hcount]⟩
      · have hcount := List.count_eq_zero_of_not_mem hnone
        exact Or.inr ⟨hk, by simp [skip, Position.advance_line, hcount]⟩
  · rw [h] at hpull
    simp only [Prod.mk.injEq, Except.ok.injEq] at hpull
    obtain ⟨rfl, -⟩ := hpull
    exact ⟨hline, Or.inl rfl⟩
  · simp [h] at hpull

/-- A scanner is read within its horizon: every token but the last takes some of the text. -/
theorem exists_reads (s : Scanner) :
    ∃ ts r s', Reads s ts r s' ∧ ts.length < horizon s := by
  induction hn : s.rest.length using Nat.strong_induction_on generalizing s with
  | _ n ih =>
      subst hn
      cases hp : s.pull with
      | mk r s' =>
          have hp' : TokenSource.pull s = (r, s') := hp
          by_cases hr : r.stops = true
          · exact ⟨[], r, s', .stop hp' hr, Nat.succ_pos _⟩
          · cases r with
            | error e => simp [Reply.stops] at hr
            | ok t =>
                have ht : t.isEnd = false := by simpa [Reply.stops] using hr
                obtain ⟨-, hend | ⟨hless, -⟩⟩ := pull_eq_ok hp
                · simp [hend] at ht
                · obtain ⟨ts, r, s'', hreads, hlength⟩ := ih _ hless s' rfl
                  refine ⟨t :: ts, r, s'', .token hp' ht hreads, ?_⟩
                  have : horizon s' < horizon s := Nat.succ_lt_succ hless
                  simp only [List.length_cons]
                  omega

end Scanner

/-! ### Raw token lists -/

/-- The tokens of a text from a line on: parts of statements and line breaks, each on its line, and the
end token last. -/
inductive RawTokens : ℕ → List Token → Prop where
  | finish {line t} : t.isEnd = true → t.line = line → RawTokens line [t]
  | lineBreak {line t ts} : t.kind = .lineBreak → t.line = line → RawTokens (line + 1) ts →
      RawTokens line (t :: ts)
  | ordinary {line t ts} : t.kind.isOrdinary = true → t.line = line → RawTokens line ts →
      RawTokens line (t :: ts)

theorem TokenKind.isSynthetic_eq_false {kind : TokenKind} (h : kind.isOrdinary = true) :
    kind.isSynthetic = false := by
  cases kind <;> simp_all [isOrdinary, isSynthetic]

/-- A scanner makes no markers. -/
theorem RawTokens.isSynthetic_eq_false {line : ℕ} {ts : List Token} (h : RawTokens line ts) :
    ∀ t ∈ ts, t.kind.isSynthetic = false := by
  induction h with
  | finish hend => simp [(Token.isEnd_iff _).mp hend, TokenKind.isSynthetic]
  | lineBreak hk _ _ ih => simpa [hk, TokenKind.isSynthetic] using ih
  | ordinary hk _ _ ih => simpa [TokenKind.isSynthetic_eq_false hk] using ih

open TokenSource in
theorem Scanner.rawTokens_of_reads {s s' : Scanner} {ts : List Token} {r : Reply}
    (h : Reads s ts r s') {t : Token} (hr : r = .ok t) : RawTokens s.position.line (ts ++ [t]) := by
  induction h with
  | @stop s r s' hp hstops =>
      subst hr
      exact .finish hstops (pull_eq_ok hp).1
  | @token s u s' ts r s'' hp hu _ ih =>
      obtain ⟨hline, hend | ⟨-, ⟨hk, hnext⟩ | ⟨hk, hnext⟩⟩⟩ := pull_eq_ok hp
      · simp [hend] at hu
      · exact .lineBreak hk hline (hnext ▸ ih hr)
      · exact .ordinary hk hline (hnext ▸ ih hr)

open TokenSource in
/-- The tokens of a text are those of one reading. -/
theorem exists_reads_of_tokenize {text : String} {raws : List Token} (h : tokenize text = .ok raws) :
    ∃ ts t s', Reads (Scanner.ofText text) ts (.ok t) s' ∧ raws = ts ++ [t] := by
  obtain ⟨ts, r, s', hreads, hlength⟩ := (Scanner.ofText text).exists_reads
  have hdrain := congrArg Prod.fst (hreads.drainWithin hlength)
  rw [tokenize, TokenSource.drain, hdrain] at h
  cases r with
  | error e => simp [Except.map] at h
  | ok t =>
      have hraws : ts ++ [t] = raws := by simpa [Except.map] using h
      exact ⟨ts, t, s', hreads, hraws.symm⟩

/-- The raw tokens of a text are numbered from line 1. -/
theorem rawTokens_of_tokenize {text : String} {raws : List Token} (h : tokenize text = .ok raws) :
    RawTokens 1 raws := by
  obtain ⟨ts, t, s', hreads, rfl⟩ := exists_reads_of_tokenize h
  exact Scanner.rawTokens_of_reads hreads rfl

end LayoutRule
