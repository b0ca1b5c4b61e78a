import LayoutRule.Proofs.Tracker.Columns
import LayoutRule.Proofs.Tree.Marks
import LayoutRule.Report
import LayoutRule.Sample

/-! # Rows as outlines

Every list of rows is an outline: the markers before a row lead to the block it stands in, as deep as
columns are open along it. The forest has one statement for each row, in order; a block by itself stands
before them if the first row is indented. -/

namespace LayoutRule

/-- The mark of a row: a statement, as deep as columns are open along it. -/
def Row.mark (row : Row) : ℕ × Option (List Token) := (row.opened.length + 1, some row.tokens)

namespace Outline

/-! ### Markers -/

private theorem takes_dedents {o : Outline} (ho : o.place ≠ .finished) (raw : Token) {k : ℕ}
    (hk : k ≤ o.enclosing.length) :
    ∃ o', Takes o (List.replicate k raw.blockDedent) o' ∧ (o'.place = o.place ∨ o'.place = .ready) ∧
      o'.enclosing.length = o.enclosing.length - k ∧ o'.marks = o.marks := by
  induction k generalizing o with
  | zero => exact ⟨o, .nil, Or.inl rfl, rfl, rfl⟩
  | succ k ih =>
      cases henclosing : o.enclosing with
      | nil => simp [henclosing] at hk
      | cons node outer =>
          simp only [henclosing, List.length_cons, Nat.add_le_add_iff_right] at hk
          obtain ⟨siblings, hclose, hmarks⟩ := closeBlock_eq ho henclosing
          obtain ⟨o', htakes, hplace, hlength, hmarks'⟩ :=
            ih (o := ⟨.ready, siblings, outer⟩) (by simp) hk
          refine ⟨o', .cons hclose htakes, Or.inr (hplace.elim id id), ?_, hmarks'.trans hmarks⟩
          simpa using hlength

/-- Where a row can begin: at the very start, or behind a line. -/
def BetweenLines (o : Outline) : Prop :=
  o = start ∨ ∃ tokens, tokens ≠ [] ∧ o.place = .behindLine tokens

theorem BetweenLines.beginsLine {o : Outline} (h : o.BetweenLines) : o.BeginsLine := by
  rcases h with rfl | ⟨tokens, -, hplace⟩
  · simp [BeginsLine, start]
  · simp [BeginsLine, hplace]

/-- The block by itself that opens when the first row is indented. -/
def lead (o : Outline) (opened : List ℕ) : List (ℕ × Option (List Token)) :=
  if o.place = .leading ∧ opened ≠ [] then [(1, none)] else []

private theorem takes_blockOpen {o : Outline} (ho : o.BetweenLines) (raw : Token) {opened : List ℕ}
    (hne : opened ≠ []) :
    ∃ o', Takes o [raw.blockOpen] o' ∧ o'.BeginsLine ∧
      o'.enclosing.length = o.enclosing.length + 1 ∧ o'.marks = o.marks ++ o.lead opened := by
  have hstep : o.step? raw.blockOpen = _ := openBlock_eq ho.beginsLine.1
  refine ⟨_, .cons hstep .nil, by simp [BeginsLine], rfl, ?_⟩
  rcases ho with rfl | ⟨tokens, htokens, hplace⟩
  · rw [marks_openBlock_of_leading rfl]
    simp [lead, start, hne]
  · rw [marks_openBlock_of_behindLine htokens hplace]
    simp [lead, hplace]

/-- The markers before a row lead to a block as deep as columns are open along the row. -/
theorem takes_markers {t : Tracker} {raw : Token} {e : Effect} (he : t.measure raw = .ok e)
    {o : Outline} (hopen : o.enclosing.length = t.opened.length) (ho : o.BetweenLines) :
    ∃ o', Takes o e.markers o' ∧ o'.BeginsLine ∧ o'.enclosing.length = e.opened.length ∧
      o'.marks = o.marks ++ o.lead e.opened := by
  have hbegins := ho.beginsLine
  rcases Tracker.measure_eq_ok he with ⟨-, rfl⟩ | ⟨-, -, rfl⟩
  · obtain ⟨o', htakes, hbegins', hlength, hmarks⟩ :=
      takes_blockOpen ho raw (List.cons_ne_nil raw.column t.opened)
    exact ⟨o', htakes, hbegins', by simp [hlength, hopen], hmarks⟩
  · have hparts := List.takeWhile_append_dropWhile (p := (raw.column < ·)) (l := t.opened)
    have hlengths := congrArg List.length hparts
    rw [List.length_append, ← hopen] at hlengths
    obtain ⟨o', htakes, hplace, hlength, hmarks⟩ :=
      takes_dedents hbegins.1 raw (Nat.le.intro hlengths)
    refine ⟨o', htakes, ?_, ?_, ?_⟩
    · rcases hplace with hplace | hplace
      · simpa [BeginsLine, hplace] using hbegins
      · simp [BeginsLine, hplace]
    · simp only [hlength]
      omega
    · rw [hmarks]
      rcases ho with rfl | ⟨tokens, -, hplace⟩
      · have hnone : t.opened = [] := List.length_eq_zero_iff.mp hopen.symm
        simp [lead, hnone]
      · simp [lead, hplace]

/-! ### Rows -/

/-- A row adds its mark. -/
theorem takes_row {t : Tracker} {first : Token} {rest : List Token} {e : Effect}
    (he : t.measure first = .ok e) (htokens : ∀ u ∈ first :: rest, u.kind.isOrdinary = true)
    {o : Outline} (hopen : o.enclosing.length = t.opened.length) (ho : o.BetweenLines) :
    ∃ o', Takes o (e.markers ++ first :: rest) o' ∧ o'.place = .inLine (first :: rest).reverse ∧
      o'.enclosing.length = e.opened.length ∧
      o'.marks = o.marks ++ o.lead e.opened ++ [Row.mark ⟨e.opened, first :: rest⟩] := by
  obtain ⟨o', hmarkers, hbegins, hlength, hmarks⟩ := takes_markers he hopen ho
  refine ⟨_, hmarkers.append (takes_line hbegins htokens), rfl, hlength, ?_⟩
  rw [marks_line, hmarks, hlength]
  rfl

/-- A line that has been begun is not taken up again by the raw tokens to come. -/
def ReadyFor (o : Outline) (raws : List Token) : Prop :=
  o.BetweenLines ∨ ∃ tokens, tokens ≠ [] ∧ o.place = .inLine tokens ∧
    ∀ u ∈ raws.head?, u.kind.isOrdinary = false

private theorem step?_lineBreak {o : Outline} {lb : Token} (hk : lb.kind = .lineBreak)
    {tokens : List Token} (hplace : o.place = .inLine tokens ∨ o.place = .behindLine tokens) :
    o.step? lb = some { o with place := .behindLine tokens } ∧
      marks { o with place := .behindLine tokens } = o.marks := by
  rcases hplace with hplace | hplace <;> simp [step?, hk, takeLineBreak, marks, settled, hplace]

/-- A line break changes no mark. -/
theorem takes_lineBreak {o : Outline} {lb : Token} (hk : lb.kind = .lineBreak) {raws : List Token}
    (ho : o.ReadyFor raws) :
    ∃ o', Takes o [lb] o' ∧ o'.BetweenLines ∧ o'.enclosing = o.enclosing ∧ o'.marks = o.marks ∧
      o'.lead = o.lead := by
  rcases ho with (rfl | ⟨tokens, hne, hplace⟩) | ⟨tokens, hne, hplace, -⟩
  · have hstep : start.step? lb = some start := by simp [step?, hk, takeLineBreak, start]
    exact ⟨start, .cons hstep .nil, Or.inl rfl, rfl, rfl, rfl⟩
  · obtain ⟨hstep, hmarks⟩ := step?_lineBreak hk (Or.inr hplace)
    refine ⟨_, .cons hstep .nil, Or.inr ⟨tokens, hne, rfl⟩, rfl, hmarks, ?_⟩
    funext opened
    simp [lead, hplace]
  · obtain ⟨hstep, hmarks⟩ := step?_lineBreak hk (Or.inl hplace)
    refine ⟨_, .cons hstep .nil, Or.inr ⟨tokens, hne, rfl⟩, rfl, hmarks, ?_⟩
    funext opened
    simp [lead, hplace]

/-- The end of the input takes the marks read so far for the forest. -/
private theorem run_finish {o : Outline} {final : Token} (hend : final.isEnd = true)
    (hplace : o.place ≠ .finished) (hopen : o.enclosing = []) (last : Option Token) :
    ∃ forest, o.run last [final] = .ok forest ∧ Node.marks 1 forest = o.marks := by
  refine ⟨o.settled.reverse, ?_, by simp [marks, hopen, openMarks]⟩
  have hstep : o.step? final = some ⟨.finished, o.settled, []⟩ := by
    simp only [step?, (Token.isEnd_iff final).mp hend, finish, hopen]
  simp [Outline.run, hstep]

/-- Rows are taken to their end, and each adds its mark. -/
theorem exists_run_of_rows {config : TrackerConfig} {line : ℕ} {opened : List ℕ}
    {raws out : List Token} {rows : List Row} (h : Rows config line opened raws out rows)
    {o : Outline} (hopen : o.enclosing.length = opened.length) (ho : o.ReadyFor raws)
    (last : Option Token) :
    ∃ forest, o.run last out = .ok forest ∧
      Node.marks 1 forest = o.marks ++ o.lead (openedAt rows 0) ++ rows.map Row.mark := by
  induction h generalizing o last with
  | @finish line opened final hend =>
      have hplace : o.place ≠ .finished := by
        rcases ho with ho | ⟨tokens, -, hplace, -⟩
        · exact ho.beginsLine.1
        · simp [hplace]
      obtain ⟨o', htakes, hplace', hlength, hmarks⟩ := takes_dedents hplace final hopen.ge
      obtain ⟨last', hrun⟩ := htakes.run last [final]
      have hclosed : o'.enclosing = [] := List.length_eq_zero_iff.mp (by omega)
      have hplace'' : o'.place ≠ .finished := by
        rcases hplace' with hplace' | hplace' <;> simp [hplace', hplace]
      obtain ⟨forest, hforest, hall⟩ := run_finish hend hplace'' hclosed last'
      exact ⟨forest, hrun.trans hforest, by simp [hall, hmarks, lead]⟩
  | @blank line next opened lb raws out rows hk _ _ ih =>
      obtain ⟨o', htakes, hbetween, henclosing, hmarks, hlead⟩ := takes_lineBreak hk ho
      obtain ⟨last', hrun⟩ := htakes.run last out
      obtain ⟨forest, hforest, hall⟩ := ih (henclosing ▸ hopen) (Or.inl hbetween) last'
      exact ⟨forest, hrun.trans hforest, by rw [hall, hmarks, hlead]⟩
  | @row line first rest raws out rows t e _ he hline hnext _ ih =>
      have hbetween : o.BetweenLines := by
        rcases ho with ho | ⟨tokens, -, -, hfirst⟩
        · exact ho
        · have := hfirst first (by simp)
          simp [(hline first (by simp)).1] at this
      obtain ⟨o', htakes, hplace, hlength, hmarks⟩ :=
        takes_row he (fun u hu => (hline u hu).1) hopen hbetween
      obtain ⟨last', hrun⟩ := htakes.run last out
      have hready : o'.ReadyFor raws := Or.inr ⟨_, by simp, hplace, hnext⟩
      obtain ⟨forest, hforest, hall⟩ := ih hlength hready last'
      refine ⟨forest, by rw [← hforest, ← hrun, List.append_assoc], ?_⟩
      have hlead : o'.lead (openedAt rows 0) = [] := by simp [lead, hplace]
      simp [hall, hlead, hmarks]

end Outline

/-- An outline of rows holds a statement for each, and no other node but a block around the first ones if these are
indented. -/
theorem Rows.exists_outline {config : TrackerConfig} {line : ℕ} {raws tokens : List Token} {rows : List Row}
    (h : Rows config line [] raws tokens rows) :
    ∃ forest, outline tokens = .ok forest ∧
      Node.marks 1 forest = Outline.start.lead (openedAt rows 0) ++ rows.map Row.mark := by
  obtain ⟨forest, hrun, hmarks⟩ :=
    Outline.exists_run_of_rows h (o := .start) rfl (Or.inl (Or.inl rfl)) none
  have hstart : Outline.start.marks = [] := by
    simp [Outline.marks, Outline.start, Outline.openMarks, Outline.settled]
  exact ⟨forest, hrun, by rw [hmarks, hstart, List.nil_append]⟩

/-- The rows of a lexed text have an outline. -/
theorem exists_outline_of_lexWith {config : TrackerConfig} {text : String} {tokens : List Token}
    (h : lexWith config text = .ok tokens) :
    ∃ raws rows forest, tokenize text = .ok raws ∧ Rows config 1 [] raws tokens rows ∧
      outline tokens = .ok forest ∧
      Node.marks 1 forest =
        Outline.start.lead (openedAt rows 0) ++ rows.map Row.mark := by
  obtain ⟨raws, rows, hraws, hrows⟩ := exists_rows_of_lexWith h
  obtain ⟨forest, houtline, hmarks⟩ := hrows.exists_outline
  exact ⟨raws, rows, forest, hraws, hrows, houtline, hmarks⟩

/-! ### Reports -/

theorem exists_outlineText_of_lexWith {config : TrackerConfig} {text : String} {tokens : List Token}
    (h : lexWith config text = .ok tokens) : ∃ forest, outlineText config text = .ok forest := by
  obtain ⟨raws, rows, forest, -, -, houtline, -⟩ := exists_outline_of_lexWith h
  exact ⟨forest, by simp [outlineText, h, houtline, Except.mapError]⟩

theorem exists_lexWith_of_outlineText {config : TrackerConfig} {text : String} {forest : List Node}
    (h : outlineText config text = .ok forest) : ∃ tokens, lexWith config text = .ok tokens := by
  cases hlex : lexWith config text with
  | error cause => simp [outlineText, hlex] at h
  | ok tokens => exact ⟨tokens, rfl⟩

theorem outlineText_of_error {config : TrackerConfig} {text : String} {cause : LexError}
    (h : lexWith config text = .error cause) : outlineText config text = .error (.lex cause) := by
  simp [outlineText, h]

/-- The formats whose reports show tracked tokens, or the tree read from them. -/
def trackedFormats : List Format := [.tokenSimple, .tokenJson, .treeView, .treeJson]

example : trackedFormats.map Format.name =
    ["token-simple", "token-json", "tree-treeviz", "tree-json"] := by
  decide

theorem exists_report_of_lexWith {config : TrackerConfig} {text : String} {tokens : List Token}
    (h : lexWith config text = .ok tokens) :
    ∀ f ∈ trackedFormats, ∃ out, report f config text = .ok out := by
  obtain ⟨forest, hforest⟩ := exists_outlineText_of_lexWith h
  simp [trackedFormats, report, h, hforest, Except.map, Except.mapError]

theorem report_of_error {config : TrackerConfig} {text : String} {cause : LexError}
    (h : lexWith config text = .error cause) :
    ∀ f ∈ trackedFormats, report f config text = .error (.lex cause) := by
  have houtline := outlineText_of_error h
  simp [trackedFormats, report, h, houtline, Except.map, Except.mapError]

/-- A text has an outline exactly if it can be lexed, and what goes wrong with its outline is what goes
wrong with lexing it. Reports in all tracked formats succeed or fail alike: they succeed if the text can be lexed, and
otherwise fail with what goes wrong with lexing it. -/
theorem outlineText_follows_lexing (config : TrackerConfig) (text : String) :
    ((∃ forest, outlineText config text = .ok forest) ↔ ∃ tokens, lexWith config text = .ok tokens) ∧
      (∀ e, outlineText config text = .error e ↔
        ∃ cause, lexWith config text = .error cause ∧ e = .lex cause) ∧
      (∀ cause, outlineText config text ≠ .error (.outline cause)) ∧
      ((∀ f ∈ trackedFormats, ∃ out, report f config text = .ok out) ∨
        ∃ e, ∀ f ∈ trackedFormats, report f config text = .error e) ∧
      ∀ f ∈ trackedFormats,
        ((∃ out, report f config text = .ok out) ↔ ∃ tokens, lexWith config text = .ok tokens) ∧
          ∀ e, report f config text = .error e ↔ ∃ cause, lexWith config text = .error cause ∧ e = .lex cause := by
  cases hlex : lexWith config text with
  | ok tokens =>
      obtain ⟨forest, hforest⟩ := exists_outlineText_of_lexWith hlex
      refine ⟨by simp [hforest], by simp [hforest], by simp [hforest], Or.inl (exists_report_of_lexWith hlex), ?_⟩
      intro f hf
      obtain ⟨out, hout⟩ := exists_report_of_lexWith hlex f hf
      exact ⟨by simp [hout], by simp [hout]⟩
  | error cause =>
      have houtline := outlineText_of_error hlex
      refine ⟨by simp [houtline], ?_, by simp [houtline], Or.inr ⟨_, report_of_error hlex⟩, ?_⟩
      · simp [houtline, eq_comm]
      · intro f hf
        have hreport := report_of_error hlex f hf
        exact ⟨by simp [hreport], by simp [hreport, eq_comm]⟩

/-- A line that a strict tracker refuses is refused in every tracked format. -/
theorem outlineText_follows_lexing_ragged :
    ∃ cause, lexWith .strict (Sample.textAt [0, 4, 2]) = .error cause ∧
      outlineText .strict (Sample.textAt [0, 4, 2]) = .error (.lex cause) ∧
      Format.treeView ∈ trackedFormats ∧
      ∀ f ∈ trackedFormats, report f .strict (Sample.textAt [0, 4, 2]) = .error (.lex cause) := by
  have hlex : lexWith .strict (Sample.textAt [0, 4, 2]) = .error (.raggedDedent ⟨3, 2, 0⟩) := by
    decide +kernel
  obtain ⟨-, herror, -, -, hreports⟩ := outlineText_follows_lexing .strict (Sample.textAt [0, 4, 2])
  exact ⟨_, hlex, (herror _).mpr ⟨_, hlex, rfl⟩, by decide, fun f hf => ((hreports f hf).2 _).mpr ⟨_, hlex, rfl⟩⟩

end LayoutRule
