import LayoutRule.Proofs.Lexing.BlankLines
import LayoutRule.Proofs.Scanner.Samples
import LayoutRule.Proofs.Tree.Offside
import LayoutRule.Proofs.Tree.Shapes

/-! # Layouts

Any forest can be laid out: its nodes become lines from the top down, and a line begins the further right the
deeper its node stands. The outline of the text is the forest again, under every policy. -/

namespace LayoutRule

open TokenSource

/-- The columns open along a line at a depth, if lines begin at column `w d` at each depth `d`. -/
def openTo (w : ℕ → ℕ) : ℕ → List ℕ
  | 0 => []
  | d + 1 => w (d + 1) :: openTo w d

@[simp] theorem length_openTo (w : ℕ → ℕ) (d : ℕ) : (openTo w d).length = d := by
  induction d with
  | zero => rfl
  | succ d ih => rw [openTo, List.length_cons, ih]

section Widths

variable {w : ℕ → ℕ}

theorem headD_openTo (hzero : w 0 = 0) (d : ℕ) : (openTo w d).headD 0 = w d := by
  cases d with
  | zero => exact hzero.symm
  | succ d => rfl

theorem mem_openTo (hzero : w 0 = 0) {d d' : ℕ} (h : d' ≤ d) : w d' = 0 ∨ w d' ∈ openTo w d := by
  induction d with
  | zero =>
      obtain rfl := Nat.le_zero.mp h
      exact Or.inl hzero
  | succ d ih =>
      rcases h.lt_or_eq with hlt | rfl
      · exact (ih (Nat.le_of_lt_succ hlt)).imp_right (List.mem_cons_of_mem _)
      · exact Or.inr List.mem_cons_self

theorem dropWhile_openTo (hw : StrictMono w) {d d' : ℕ} (h : d' ≤ d) :
    (openTo w d).dropWhile (w d' < ·) = openTo w d' := by
  induction d with
  | zero =>
      obtain rfl := Nat.le_zero.mp h
      rfl
  | succ d ih =>
      rcases h.lt_or_eq with hlt | rfl
      · rw [openTo, List.dropWhile_cons_of_pos (by simpa using hw hlt), ih (Nat.le_of_lt_succ hlt)]
      · rw [openTo, List.dropWhile_cons_of_neg (by simp)]

/-- A line at most one step deeper than the one before it opens or closes what it takes, and is not refused. -/
theorem Tracker.measure_openTo (hw : StrictMono w) (hzero : w 0 = 0) {t : Tracker} {d d' : ℕ}
    (hopened : t.opened = openTo w d) (hstep : d' ≤ d + 1) {raw : Token} (hcolumn : raw.column = w d') :
    ∃ markers, t.measure raw = .ok ⟨markers, openTo w d'⟩ := by
  have htop : t.top = w d := by rw [top, hopened, headD_openTo hzero]
  rw [measure, htop, hcolumn, hopened]
  rcases hstep.lt_or_eq with hlt | rfl
  · have hle : d' ≤ d := Nat.le_of_lt_succ hlt
    have hlevel : w d' ∈ t.levels := (t.mem_levels _).mpr (hopened ▸ mem_openTo hzero hle)
    rw [if_neg (Nat.not_lt_of_le (hw.monotone hle)), if_neg fun h => h.2 hlevel]
    exact ⟨_, by rw [dropWhile_openTo hw hle]⟩
  · rw [if_pos (hw (Nat.lt_succ_self d))]
    exact ⟨_, rfl⟩

end Widths

/-! ### Rows of a sample -/

namespace Sample

/-- The rows of sample lines at the given depths. -/
def rowsFrom (w : ℕ → ℕ) (line offset : ℕ) : List ℕ → List Row
  | [] => []
  | d :: ds =>
      ⟨openTo w d, [nameToken (lineName line) line (w d) (offset + w d)]⟩ ::
        rowsFrom w (line + 1) (offset + (w d + (lineName line).utf8ByteSize) + 1) ds

variable {w : ℕ → ℕ}

theorem map_opened_rowsFrom (line offset : ℕ) (ds : List ℕ) :
    (rowsFrom w line offset ds).map Row.opened = ds.map (openTo w) := by
  induction ds generalizing line offset with
  | nil => rfl
  | cons d ds ih => rw [rowsFrom, List.map_cons, List.map_cons, ih]

theorem openedAt_rowsFrom (line offset : ℕ) (ds : List ℕ) (k : ℕ) :
    openedAt (rowsFrom w line offset ds) k = openTo w (ds[k]?.getD 0) := by
  rw [openedAt, ← List.getElem?_map, map_opened_rowsFrom, List.getElem?_map]
  cases ds[k]? <;> rfl

theorem depths_rowsFrom (line offset : ℕ) (ds : List ℕ) :
    ((rowsFrom w line offset ds).map Row.mark).map Prod.fst = ds.map (· + 1) := by
  induction ds generalizing line offset with
  | nil => rfl
  | cons d ds ih => simp only [rowsFrom, List.map_cons, ih, Row.mark, length_openTo]

theorem exists_tokens_rowsFrom (line offset : ℕ) {k d : ℕ} {ds : List ℕ} (hk : ds[k]? = some d) :
    ∃ start, (rowsFrom w line offset ds)[k]?.map Row.tokens =
      some [nameToken (lineName (line + k)) (line + k) (w d) start] := by
  induction ds generalizing line offset k with
  | nil => simp at hk
  | cons d' ds ih =>
      cases k with
      | zero =>
          obtain rfl : d' = d := by simpa using hk
          exact ⟨_, rfl⟩
      | succ k =>
          obtain ⟨start, hrow⟩ := ih (line + 1) (offset + (w d' + (lineName line).utf8ByteSize) + 1)
            (by simpa using hk)
          exact ⟨start, by rw [rowsFrom, List.getElem?_cons_succ, hrow, Nat.add_right_comm, Nat.add_assoc]⟩

/-- The tracker goes over the lines of a sample row by row. -/
theorem exists_run_linesFrom (hw : StrictMono w) (hzero : w 0 = 0) {t : Tracker} (hi : t.Idle)
    (hstart : t.atLineStart = true) {d : ℕ} (hopened : t.opened = openTo w d) {ds : List ℕ}
    (hsteps : (d :: ds).IsChain fun d d' => d' ≤ d + 1) (line offset : ℕ) :
    ∃ out t', t.Run (linesFrom line offset (ds.map w)) out t' ∧
      Rows t.config line t.opened (linesFrom line offset (ds.map w)) out (rowsFrom w line offset ds) := by
  induction ds generalizing t d line offset with
  | nil => exact ⟨_, _, .cons hi (t.effect_of_isEnd rfl) .nil, .finish rfl⟩
  | cons d' ds ih =>
      obtain ⟨hstep, hbelow⟩ := List.isChain_cons_cons.mp hsteps
      let behind := w d' + (lineName line).utf8ByteSize
      let name := nameToken (lineName line) line (w d') (offset + w d')
      let lb := lineBreak line behind (offset + behind)
      have hordinary : name.kind.isOrdinary = true := rfl
      obtain ⟨hbreak, hend⟩ := content_of_isOrdinary hordinary
      obtain ⟨markers, hmeasure⟩ : ∃ markers, t.measure name = .ok ⟨markers, openTo w d'⟩ :=
        Tracker.measure_openTo hw hzero hopened hstep rfl
      have hname : t.effect name = .ok ⟨markers, openTo w d'⟩ := by
        rw [t.effect_of_content hbreak hend, if_pos hstart, hmeasure]
      -- Behind the name and its line break the next line begins.
      let named := t.settle name ⟨markers, openTo w d'⟩
      have hnamed : named.Idle := hi.settle hend _
      have hlb : named.effect lb = .ok ⟨[], openTo w d'⟩ := named.effect_of_lineBreak rfl
      obtain ⟨out, t', hrun, hrows⟩ :=
        ih (t := named.settle lb ⟨[], openTo w d'⟩) (hnamed.settle rfl _) rfl rfl hbelow (line + 1) (offset + behind + 1)
      have hline : ∀ u ∈ [name], u.kind.isOrdinary = true ∧ u.line = line := fun u hu =>
        List.mem_singleton.mp hu ▸ ⟨hordinary, rfl⟩
      have hnext : ∀ u ∈ (lb :: linesFrom (line + 1) (offset + behind + 1) (ds.map w)).head?,
          u.kind.isOrdinary = false := by
        intro u hu
        obtain rfl : lb = u := by simpa using hu
        rfl
      have hrow := Rows.row rfl hmeasure hline hnext (.blank rfl le_rfl hrows)
      exact ⟨_, t', .cons hi hname (.cons hnamed hlb hrun), hrow⟩

end Sample

/-! ### Forests laid out -/

open Node

/-- Depths that begin with 0 and go up one step at a time at most are those of a text. -/
theorem exists_laid_of_depths {w : ℕ → ℕ} (hw : StrictMono w) (hzero : w 0 = 0) (config : TrackerConfig)
    {ds : List ℕ} (hfirst : ∀ d ∈ ds.head?, d = 0) (hsteps : ds.IsChain fun d d' => d' ≤ d + 1) :
    ∃ forest, outlineText config (Sample.textAt (ds.map w)) = .ok forest ∧
      Laid forest 0 (Sample.rowsFrom w 1 0 ds) := by
  have hchain : (0 :: ds).IsChain fun d d' => d' ≤ d + 1 :=
    hsteps.cons fun d hd => by rw [hfirst d hd]; exact Nat.zero_le 1
  obtain ⟨raws, final, s', hlines, hreads⟩ := Sample.reads_textAt (ds.map w)
  obtain ⟨out, t', hrun, hrows⟩ :=
    Sample.exists_run_linesFrom hw hzero (Tracker.idle_start config) rfl rfl hchain 1 0
  rw [← Sample.linesAt, hlines] at hrun
  have hlex := lexWith_of_run hreads hrun
  obtain ⟨forest, houtline, hmarks⟩ := hrows.exists_outline
  have hopened : openedAt (Sample.rowsFrom w 1 0 ds) 0 = [] := by
    rw [Sample.openedAt_rowsFrom, ← List.head?_eq_getElem?]
    cases hhead : ds.head? with
    | none => rfl
    | some d => rw [hfirst d hhead]; rfl
  have hlaid := laid_of_marks hmarks
  rw [if_pos hopened] at hlaid
  exact ⟨forest, by simp [outlineText, hlex, houtline, Except.mapError], hlaid⟩

/-- Lay out a forest of any shape: let its nodes from the top down be lines with a name each, and let a line begin
the further right the deeper its node stands, at column 0 for the outermost. Under every policy the text is read
to a forest of statements of the same shape, which hold the names in order. -/
theorem outline_inverts_layout {w : ℕ → ℕ} (hw : StrictMono w) (hzero : w 0 = 0) (config : TrackerConfig)
    (shapes : List Shape) :
    let columns := (Shape.depths 0 shapes).map w
    ∃ forest, outlineText config (Sample.textAt columns) = .ok forest ∧ Node.shapes forest = shapes ∧
      (walkForest forest).length = columns.length ∧
      ∀ i column, columns[i]? = some column → ∃ a body start, (walkForest forest)[i]? =
        some (a, Node.statement [Sample.nameToken (Sample.lineName (i + 1)) (i + 1) column start] body) := by
  intro columns
  obtain ⟨forest, houtline, hlaid⟩ := exists_laid_of_depths hw hzero config
    (fun d => Shape.eq_of_mem_head?_depths d) (Shape.isChain_depths (Nat.zero_le 1) shapes).tail
  have hdepths := Sample.depths_rowsFrom (w := w) 1 0 (Shape.depths 0 shapes)
  refine ⟨forest, houtline, ?_, ?_, ?_⟩
  · apply Shape.depths_injective 1
    rw [← map_fst_marks, hlaid.marks, Shape.depths_succ, ← hdepths]
    rfl
  · have hlength := congrArg List.length hdepths
    simp only [List.length_map] at hlength
    rw [hlaid.length_walkForest, hlength, Nat.zero_add, List.length_map]
  · intro i column hcolumn
    obtain ⟨d, hd, rfl⟩ : ∃ d, (Shape.depths 0 shapes)[i]? = some d ∧ w d = column := by
      simpa [columns] using hcolumn
    obtain ⟨start, htokens⟩ := Sample.exists_tokens_rowsFrom (w := w) 1 0 hd
    obtain ⟨row, hrow, htokens⟩ := Option.map_eq_some_iff.mp htokens
    obtain ⟨hi, rfl⟩ := List.getElem?_eq_some_iff.mp hrow
    obtain ⟨n, hvisit, -, hstatement⟩ := hlaid.visit_of_row hi
    rw [Nat.zero_add] at hvisit
    cases n with
    | block children => cases hstatement
    | statement tokens body =>
        obtain rfl := Option.some.inj hstatement
        exact ⟨_, body, start, by rw [hvisit, htokens, Nat.add_comm 1]⟩

/-- Each of the first three lines begins a step deeper; the fourth and the fifth come back up, a step each. -/
theorem outline_inverts_layout_stairs :
    let shapes : List Shape := [.branch [.branch [.branch []], .branch []], .branch []]
    StrictMono (4 * · : ℕ → ℕ) ∧ ∃ forest, outlineText .strict (Sample.textAt [0, 4, 8, 4, 0]) = .ok forest ∧
      Node.shapes forest = shapes ∧ (walkForest forest).length = 5 ∧
      ∃ a body start, (walkForest forest)[2]? =
        some (a, Node.statement [Sample.nameToken "t3" 3 8 start] body) := by
  intro shapes
  have hw : StrictMono (4 * · : ℕ → ℕ) := fun d d' hlt => Nat.mul_lt_mul_of_pos_left hlt (by decide)
  have hcolumns : (Shape.depths 0 shapes).map (4 * ·) = [0, 4, 8, 4, 0] := by simp [shapes]
  obtain ⟨forest, houtline, hshapes, hlength, hlines⟩ := outline_inverts_layout hw rfl .strict shapes
  rw [hcolumns] at houtline hlength hlines
  exact ⟨hw, forest, houtline, hshapes, hlength, hlines 2 8 rfl⟩

end LayoutRule
