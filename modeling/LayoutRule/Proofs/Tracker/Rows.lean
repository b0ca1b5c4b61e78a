import LayoutRule.Proofs.Lexing.Readings
import Mathlib.Data.List.SplitBy

/-! # Rows

A line with tokens of statements on it becomes a row: markers, and behind them the tokens of the line. The
columns open along a row come from those of the row before it and the column of its first token. -/

namespace LayoutRule

/-- The tokens of statements, line by line. -/
def sourceLines (raws : List Token) : List (List Token) :=
  (raws.filter (·.kind.isOrdinary)).splitBy fun t u => t.line == u.line

/-- The tokens of a line and the columns that are open along it. -/
structure Row where
  opened : List ℕ
  tokens : List Token

/-- Raw tokens from the start of a line on, what is handed out for them, and their rows. The rows stand on
the line given or below it. -/
inductive Rows (config : TrackerConfig) :
    ℕ → List ℕ → List Token → List Token → List Row → Prop where
  | finish {line opened final} : final.isEnd = true →
      Rows config line opened [final]
        (List.replicate opened.length final.blockDedent ++ [final]) []
  | blank {line next opened lb raws out rows} : lb.kind = .lineBreak → line ≤ next →
      Rows config next opened raws out rows →
      Rows config line opened (lb :: raws) (lb :: out) rows
  | row {line first rest raws out rows} {t : Tracker} {e : Effect} :
      t.config = config → t.measure first = .ok e →
      (∀ u ∈ first :: rest, u.kind.isOrdinary = true ∧ u.line = line) →
      (∀ u ∈ raws.head?, u.kind.isOrdinary = false) →
      Rows config (line + 1) e.opened raws out rows →
      Rows config line t.opened (first :: rest ++ raws) (e.markers ++ (first :: rest ++ out))
        (⟨e.opened, first :: rest⟩ :: rows)

/-! ### The rows of a run -/

theorem content_of_isOrdinary {t : Token} (h : t.kind.isOrdinary = true) :
    t.kind ≠ .lineBreak ∧ t.isEnd = false := by
  refine ⟨?_, ?_⟩
  · intro hk
    simp [hk, TokenKind.isOrdinary] at h
  · cases he : t.isEnd with
    | false => rfl
    | true => simp [(Token.isEnd_iff t).mp he, TokenKind.isOrdinary] at h

/-- At the start of a line rows follow. Within one they follow the tokens left on it. -/
def Tracker.RowsFrom (t : Tracker) (line : ℕ) (raws out : List Token) : Prop :=
  ∃ rest raws' out' rows, raws = rest ++ raws' ∧ out = rest ++ out' ∧
    (∀ u ∈ rest, u.kind.isOrdinary = true ∧ u.line = line) ∧
    (t.atLineStart = true → rest = [] ∧ Rows t.config line t.opened raws' out' rows) ∧
    (t.atLineStart = false → (∀ u ∈ raws'.head?, u.kind.isOrdinary = false) ∧
      Rows t.config (line + 1) t.opened raws' out' rows)

namespace Tracker.RowsFrom

private theorem of_rows {t : Tracker} {line : ℕ} {raws out : List Token} {rows : List Row}
    (hhead : ∀ u ∈ raws.head?, u.kind.isOrdinary = false)
    (hstart : Rows t.config line t.opened raws out rows)
    (hwithin : Rows t.config (line + 1) t.opened raws out rows) : t.RowsFrom line raws out :=
  ⟨[], raws, out, rows, rfl, rfl, by simp, fun _ => ⟨rfl, hstart⟩, fun _ => ⟨hhead, hwithin⟩⟩

theorem finish (t : Tracker) (line : ℕ) {final : Token} (hend : final.isEnd = true) :
    t.RowsFrom line [final] (List.replicate t.opened.length final.blockDedent ++ [final]) := by
  refine of_rows ?_ (.finish hend) (.finish hend)
  simp [(Token.isEnd_iff final).mp hend, TokenKind.isOrdinary]

theorem lineBreak {t : Tracker} {line : ℕ} {lb : Token} {raws out : List Token}
    (hk : lb.kind = .lineBreak)
    (h : (t.settle lb ⟨[], t.opened⟩).RowsFrom (line + 1) raws out) :
    t.RowsFrom line (lb :: raws) (lb :: out) := by
  obtain ⟨rest, raws', out', rows, rfl, rfl, -, hstart, -⟩ := h
  obtain ⟨rfl, hrows⟩ := hstart (t.lineStartAfter_of_lineBreak hk)
  refine of_rows ?_ (.blank hk (Nat.le_succ line) hrows) (.blank hk le_rfl hrows)
  simp [hk, TokenKind.isOrdinary]

theorem ordinary {t : Tracker} {line : ℕ} {first : Token} {raws out : List Token} {e : Effect}
    (hk : first.kind.isOrdinary = true) (hline : first.line = line) (he : t.effect first = .ok e)
    (h : (t.settle first e).RowsFrom line raws out) :
    t.RowsFrom line (first :: raws) (e.markers ++ first :: out) := by
  obtain ⟨hbreak, hend⟩ := content_of_isOrdinary hk
  obtain ⟨rest, raws', out', rows, rfl, rfl, hrest, -, hwithin⟩ := h
  obtain ⟨hhead, hrows⟩ := hwithin (t.lineStartAfter_of_content hbreak hend)
  have hall : ∀ u ∈ first :: rest, u.kind.isOrdinary = true ∧ u.line = line := by
    intro u hu
    rcases List.mem_cons.mp hu with rfl | hu
    · exact ⟨hk, hline⟩
    · exact hrest u hu
  rw [t.effect_of_content hbreak hend] at he
  cases hat : t.atLineStart with
  | true =>
      rw [hat, if_pos rfl] at he
      have hrow := Rows.row rfl he hall hhead hrows
      exact ⟨[], _, _, _, rfl, rfl, by simp, fun _ => ⟨rfl, hrow⟩, by simp [hat]⟩
  | false =>
      rw [hat, if_neg (by decide)] at he
      obtain rfl := Except.ok.inj he
      exact ⟨first :: rest, raws', out', rows, rfl, rfl, hall, by simp [hat],
        fun _ => ⟨hhead, hrows⟩⟩

end Tracker.RowsFrom

/-- A run over the raw tokens of a text is rows. -/
theorem Tracker.Run.rowsFrom {line : ℕ} {raws out : List Token} {t t' : Tracker}
    (hraws : RawTokens line raws) (hrun : t.Run raws out t') : t.RowsFrom line raws out := by
  induction hraws generalizing t out with
  | @finish line final hend hline =>
      cases hrun with
      | cons hi he hrest =>
          cases hrest with
          | nil =>
              rw [t.effect_of_isEnd hend] at he
              obtain rfl := Except.ok.inj he
              exact .finish t line hend
  | lineBreak hk hline _ ih =>
      cases hrun with
      | cons hi he hrest =>
          rw [t.effect_of_lineBreak hk] at he
          obtain rfl := Except.ok.inj he
          exact .lineBreak hk (ih hrest)
  | ordinary hk hline _ ih =>
      cases hrun with
      | cons hi he hrest => exact .ordinary hk hline he (ih hrest)

/-- The tokens of a text are the rows of its raw tokens. -/
theorem exists_rows_of_lexWith {config : TrackerConfig} {text : String} {tokens : List Token}
    (h : lexWith config text = .ok tokens) :
    ∃ raws rows, tokenize text = .ok raws ∧ Rows config 1 [] raws tokens rows := by
  obtain ⟨raws, t', hraws, hrun⟩ := exists_run_of_lexWith h
  obtain ⟨rest, raws', out', rows, rfl, rfl, -, hstart, -⟩ :=
    hrun.rowsFrom (rawTokens_of_tokenize hraws)
  obtain ⟨rfl, hrows⟩ := hstart rfl
  exact ⟨_, rows, hraws, hrows⟩

namespace Rows

variable {config : TrackerConfig} {line : ℕ} {opened : List ℕ} {raws out : List Token}
  {rows : List Row}

/-! ### Lines -/

theorem line_le (h : Rows config line opened raws out rows) :
    ∀ u ∈ raws.filter (·.kind.isOrdinary), line ≤ u.line := by
  induction h with
  | finish hend => simp [(Token.isEnd_iff _).mp hend, TokenKind.isOrdinary]
  | blank hk hle _ ih =>
      intro u hu
      have hu := ih u (by simpa [hk, TokenKind.isOrdinary] using hu)
      omega
  | @row line first rest raws out rows t e _ _ hall _ _ ih =>
      intro u hu
      rw [List.filter_append] at hu
      rcases List.mem_append.mp hu with hu | hu
      · exact (hall u (List.mem_of_mem_filter hu)).2.ge
      · have := ih u hu
        omega

/-- The rows are the source lines, one for one. -/
theorem map_tokens (h : Rows config line opened raws out rows) :
    rows.map Row.tokens = sourceLines raws := by
  induction h with
  | finish hend => simp [sourceLines, (Token.isEnd_iff _).mp hend, TokenKind.isOrdinary]
  | blank hk _ _ ih => simpa [sourceLines, hk, TokenKind.isOrdinary] using ih
  | @row line first rest raws out rows t e _ _ hall _ hrows ih =>
      have hfilter : (first :: rest).filter (·.kind.isOrdinary) = first :: rest :=
        List.filter_eq_self.mpr fun u hu => (hall u hu).1
      have hchain : (first :: rest).IsChain fun t u => (t.line == u.line) = true := by
        apply List.Pairwise.isChain
        apply List.pairwise_of_forall_mem_list
        intro u hu v hv
        simp [(hall u hu).2, (hall v hv).2]
      have hbelow : ∀ x ∈ (first :: rest).getLast?,
          ∀ y ∈ (raws.filter (·.kind.isOrdinary)).head?, (x.line == y.line) = false := by
        intro x hx y hy
        have hx := (hall x (List.mem_of_getLast? hx)).2
        have hy := hrows.line_le y (List.mem_of_head? hy)
        simp only [beq_eq_false_iff_ne]
        omega
      rw [sourceLines, List.filter_append, hfilter, List.splitBy_append hbelow,
        List.splitBy_of_isChain (by simp) hchain, List.map_cons, ih]
      rfl

end Rows

end LayoutRule
