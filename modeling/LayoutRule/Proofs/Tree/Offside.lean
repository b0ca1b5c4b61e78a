import LayoutRule.Proofs.Tree.Acceptance

/-! # The offside rule

A statement stands inside an earlier one exactly if its line, and every line between the two, begins
further right than the earlier one. -/

namespace LayoutRule

open Node

/-! ### Nodes of rows -/

/-- A forest has one statement for each row, as deep as columns are open along it, behind `blocks` blocks
by themselves. -/
structure Laid (forest : List Node) (blocks : ℕ) (rows : List Row) : Prop where
  marks : Node.marks 1 forest = List.replicate blocks (1, none) ++ rows.map Row.mark
  blocks : blocks = if openedAt rows 0 = [] then 0 else 1

namespace Laid

variable {forest : List Node} {blocks : ℕ} {rows : List Row}

theorem length_walkForest (h : Laid forest blocks rows) :
    (walkForest forest).length = blocks + rows.length := by
  have hmarks := map_walkForest forest
  rw [h.marks] at hmarks
  simpa using congrArg List.length hmarks

theorem statements (h : Laid forest blocks rows) :
    (statements forest).map Prod.snd = rows.map Row.tokens ∧
      ∀ i, (Node.statements forest)[i]?.map Prod.fst =
        (walkForest forest)[blocks + i]?.map Prod.fst := by
  apply statements_of_tokens?
  have hmarks := map_walkForest forest
  rw [h.marks] at hmarks
  have hkinds := congrArg (List.map Prod.snd) hmarks
  simpa [Row.mark, Function.comp_def] using hkinds

/-- Behind the blocks the nodes of the rows are visited, each as deep as columns are open along its row. -/
theorem visit_of_row (h : Laid forest blocks rows) {k : ℕ} (hk : k < rows.length) :
    ∃ n, (walkForest forest)[blocks + k]? = some (addressAt forest (blocks + k), n) ∧
      (addressAt forest (blocks + k)).length = (openedAt rows k).length + 1 ∧
      n.tokens? = some rows[k].tokens := by
  apply visit_of_mark
  rw [h.marks, List.getElem?_append_right (by simp)]
  simp [Row.mark, openedAt_eq_opened hk, List.getElem?_eq_getElem hk]

/-- The blocks are visited first, at depth 1. -/
theorem visit_of_lt (h : Laid forest blocks rows) {k : ℕ} (hk : k < blocks) :
    ∃ children, (walkForest forest)[k]? = some (addressAt forest k, .block children) ∧
      (addressAt forest k).length = 1 := by
  have hmark : (Node.marks 1 forest)[k]? = some (1, none) := by
    rw [h.marks, List.getElem?_append_left (by simpa using hk), List.getElem?_replicate_of_lt hk]
  obtain ⟨n, hvisit, hdepth, htokens⟩ := visit_of_mark hmark
  cases n with
  | statement => simp at htokens
  | block children => exact ⟨children, hvisit, hdepth⟩

/-- There are no other blocks by themselves. -/
theorem lt_of_block (h : Laid forest blocks rows) {k : ℕ} {a : List ℕ} {children : List Node}
    (hvisit : (walkForest forest)[k]? = some (a, .block children)) : k < blocks := by
  by_contra hge
  have hk := (List.getElem?_eq_some_iff.mp hvisit).1
  rw [h.length_walkForest] at hk
  obtain ⟨n, hrow, -, htokens⟩ := h.visit_of_row (k := k - blocks) (by omega)
  rw [Nat.add_sub_cancel' (Nat.le_of_not_lt hge), hvisit] at hrow
  obtain ⟨-, rfl⟩ := Prod.mk.inj (Option.some.inj hrow)
  simp [tokens?] at htokens

theorem lt_of_mem_block (h : Laid forest blocks rows) {a : List ℕ} {children : List Node}
    (hmem : (a, Node.block children) ∈ walkForest forest) :
    ∃ k, k < blocks ∧ a = addressAt forest k := by
  obtain ⟨k, hvisit⟩ := List.getElem?_of_mem hmem
  exact ⟨k, h.lt_of_block hvisit, by simp [addressAt, hvisit]⟩

theorem statement_address (h : Laid forest blocks rows) {i : ℕ} (hi : i < rows.length) :
    (Node.statements forest)[i]?.map Prod.fst = some (addressAt forest (blocks + i)) := by
  obtain ⟨n, hvisit, -⟩ := h.visit_of_row hi
  simp [h.statements.2 i, hvisit]

/-- Depth behind the blocks is compared as the open columns are. -/
private theorem deeper_iff (h : Laid forest blocks rows) (first : ℕ)
    {a : List ℕ} {c j : ℕ} (ha : a.length = c + 1) (hj : j < rows.length) :
    (∀ k, blocks + first ≤ k → k ≤ blocks + j → a.length < (addressAt forest k).length) ↔
      ∀ k, first ≤ k → k ≤ j → c < (openedAt rows k).length := by
  have hdepth (k : ℕ) (hkj : k ≤ j) : a.length < (addressAt forest (blocks + k)).length ↔
      c < (openedAt rows k).length := by
    obtain ⟨-, -, hlength, -⟩ := h.visit_of_row (k := k) (by omega)
    omega
  constructor
  · intro hall k hk hkj
    exact (hdepth k hkj).mp (hall (blocks + k) (by omega) (by omega))
  · intro hall k hk hkj
    obtain ⟨k, rfl⟩ := Nat.exists_eq_add_of_le (Nat.le_trans (Nat.le_add_right blocks first) hk)
    exact (hdepth k (by omega)).mpr (hall k (by omega) (by omega))

theorem length_statements (h : Laid forest blocks rows) :
    (Node.statements forest).length = rows.length := by
  simpa using congrArg List.length h.statements.1

/-- A statement encloses another exactly if more columns are open along all rows behind it, up to the
other. -/
theorem encloses_iff (h : Laid forest blocks rows) {i j : ℕ} (hj : j < rows.length) :
    Encloses forest i j ↔
      i < j ∧ ∀ k, i < k → k ≤ j → (openedAt rows i).length < (openedAt rows k).length := by
  have hlength := h.length_walkForest
  by_cases hi : i < rows.length
  · have haddresses : Encloses forest i j ↔
        addressAt forest (blocks + i) <+: addressAt forest (blocks + j) ∧
          addressAt forest (blocks + i) ≠ addressAt forest (blocks + j) := by
      simp [Encloses, h.statement_address hi, h.statement_address hj]
    obtain ⟨-, -, hdepth, -⟩ := h.visit_of_row hi
    rw [haddresses, encloses_iff_depths (steps_addressAt (by omega)) (steps_addressAt (by omega))]
    exact and_congr (by omega) (h.deeper_iff (i + 1) hdepth hj)
  · have hnone : (Node.statements forest)[i]? = none := by
      rw [List.getElem?_eq_none_iff, h.length_statements]
      omega
    simp only [Encloses, hnone, Option.map_none]
    constructor
    · rintro ⟨a, b, hfalse, -⟩
      cases hfalse
    · rintro ⟨hij, -⟩
      omega

/-- A statement stands in a block by itself exactly if columns are open along all rows up to it. -/
theorem inBlock_iff (h : Laid forest blocks rows) {j : ℕ} (hj : j < rows.length) :
    InBlock forest j ↔ ∀ k ≤ j, 0 < (openedAt rows k).length := by
  have hlength := h.length_walkForest
  have hblocks := h.blocks
  by_cases hopen : openedAt rows 0 = []
  · rw [if_pos hopen] at hblocks
    constructor
    · rintro ⟨a, b, children, hmem, -, -⟩
      obtain ⟨k, hk, -⟩ := h.lt_of_mem_block hmem
      omega
    · intro hall
      have := hall 0 (Nat.zero_le j)
      simp [hopen] at this
  · rw [if_neg hopen] at hblocks
    subst hblocks
    obtain ⟨children, hblock, hdepth⟩ := h.visit_of_lt Nat.zero_lt_one
    have hfirst : InBlock forest j ↔ addressAt forest 0 <+: addressAt forest (1 + j) := by
      simp only [InBlock, h.statement_address hj]
      constructor
      · rintro ⟨a, b, children, hmem, hb, hinside⟩
        obtain ⟨k, hk, rfl⟩ := h.lt_of_mem_block hmem
        obtain rfl : k = 0 := by omega
        obtain rfl := Option.some.inj hb
        exact hinside
      · intro hinside
        exact ⟨_, _, children, List.mem_of_getElem? hblock, rfl, hinside⟩
    rw [hfirst, isPrefix_iff_depths (by omega) (steps_addressAt (by omega))]
    exact (h.deeper_iff 0 hdepth hj).trans (by simp)

end Laid

/-! ### Columns of lines -/

/-- A forest with these marks is laid out by the rows. -/
theorem laid_of_marks {forest : List Node} {rows : List Row}
    (h : Node.marks 1 forest = Outline.start.lead (openedAt rows 0) ++ rows.map Row.mark) :
    Laid forest (if openedAt rows 0 = [] then 0 else 1) rows := by
  refine ⟨?_, rfl⟩
  rw [h]
  by_cases hopen : openedAt rows 0 = [] <;> simp [Outline.lead, Outline.start, hopen]

/-- The forest of a text is laid out by its rows. -/
theorem exists_laid_of_outlineText {config : TrackerConfig} {text : String} {forest : List Node}
    (h : outlineText config text = .ok forest) :
    ∃ raws tokens rows blocks, tokenize text = .ok raws ∧ Rows config 1 [] raws tokens rows ∧
      Laid forest blocks rows := by
  obtain ⟨tokens, hlex⟩ := exists_lexWith_of_outlineText h
  obtain ⟨raws, rows, forest', hraws, hrows, houtline, hmarks⟩ := exists_outline_of_lexWith hlex
  have hforest : forest' = forest := by simpa [outlineText, hlex, houtline, Except.mapError] using h
  subst hforest
  exact ⟨raws, tokens, rows, _, hraws, hrows, laid_of_marks hmarks⟩

/-- The statements of a forest hold raw tokens of the text. -/
theorem exists_raws_of_outlineText {config : TrackerConfig} {text : String} {forest : List Node}
    (h : outlineText config text = .ok forest) :
    ∃ raws, tokenize text = .ok raws ∧
      ∀ s ∈ statements forest, ∀ t ∈ s.2, t ∈ raws ∧ t.kind.isOrdinary = true := by
  obtain ⟨raws, tokens, rows, blocks, hraws, hrows, hlaid⟩ := exists_laid_of_outlineText h
  refine ⟨raws, hraws, fun s hs t ht => ?_⟩
  have hline : s.2 ∈ sourceLines raws := by
    rw [← hrows.map_tokens, ← hlaid.statements.1]
    exact List.mem_map_of_mem hs
  have ht : t ∈ (sourceLines raws).flatten := List.mem_flatten_of_mem hline ht
  rw [sourceLines, List.flatten_splitBy] at ht
  simpa using ht

/-- In a text laid out strictly, the lines are the statements of its forest. A statement encloses a later
one exactly if all lines behind its own, up to the line of the other, begin further right. It stands in a
block by itself exactly if no line so far begins at column 0. -/
theorem statements_nest_by_columns {config : TrackerConfig} {text : String} {forest : List Node}
    (hstrict : config.dedent = .strict) (h : outlineText config text = .ok forest) :
    ∃ raws, tokenize text = .ok raws ∧ (statements forest).map Prod.snd = sourceLines raws ∧
      ∀ i j,
        (Encloses forest i j ↔
          i < j ∧ ∀ k, i < k → k ≤ j → lineColumn raws i < lineColumn raws k) ∧
        (InBlock forest j ↔ ∀ k ≤ j, 0 < lineColumn raws k) := by
  obtain ⟨raws, tokens, rows, blocks, hraws, hrows, hlaid⟩ := exists_laid_of_outlineText h
  have hcolumn (k : ℕ) : 0 < (openedAt rows k).length ↔ 0 < lineColumn raws k := by
    rw [← hrows.headD_openedAt hstrict .nil k]
    exact (hrows.nested .nil k).length_lt_iff_of_suffix List.nil_suffix
  refine ⟨raws, hraws, by rw [hlaid.statements.1, hrows.map_tokens], fun i j => ?_⟩
  by_cases hj : j < rows.length
  · rw [hlaid.encloses_iff hj, hlaid.inBlock_iff hj, hrows.depths_iff_columns hstrict]
    exact ⟨Iff.rfl, forall₂_congr fun k _ => hcolumn k⟩
  · -- Behind the last line there is no statement, and columns are 0.
    have hnone : (statements forest)[j]? = none := by
      rw [List.getElem?_eq_none_iff, hlaid.length_statements]
      omega
    have hzero : lineColumn raws j = 0 := by
      rw [← hrows.headD_openedAt hstrict .nil j]
      simp [openedAt, List.getElem?_eq_none_iff.mpr (Nat.le_of_not_lt hj)]
    refine ⟨iff_of_false ?_ ?_, iff_of_false ?_ ?_⟩
    · simp [Encloses, hnone]
    · rintro ⟨hij, hall⟩
      have := hall j hij le_rfl
      omega
    · simp [InBlock, hnone]
    · intro hall
      have := hall j le_rfl
      omega

/-- An indented line encloses the two below it; the block by itself around it ends before the last line. -/
theorem statements_nest_by_columns_indented :
    ∃ forest, outlineText .strict (Sample.textAt [2, 4, 4, 2, 0]) = .ok forest ∧
      Encloses forest 0 2 ∧ ¬Encloses forest 1 2 ∧ ¬Encloses forest 0 3 ∧
      InBlock forest 3 ∧ ¬InBlock forest 4 := by
  have hraws : tokenize (Sample.textAt [2, 4, 4, 2, 0]) = .ok (Sample.linesAt [2, 4, 4, 2, 0]) := by
    decide +kernel
  have houtline : outlineText .strict (Sample.textAt [2, 4, 4, 2, 0]) = .ok
      [.block
        [.statement [Sample.nameToken "t1" 1 2 2]
          [.statement [Sample.nameToken "t2" 2 4 9] [], .statement [Sample.nameToken "t3" 3 4 16] []],
        .statement [Sample.nameToken "t4" 4 2 21] []],
      .statement [Sample.nameToken "t5" 5 0 24] []] := by
    decide +kernel
  obtain ⟨raws, htokens, -, hnest⟩ := statements_nest_by_columns rfl houtline
  obtain rfl : Sample.linesAt [2, 4, 4, 2, 0] = raws := Except.ok.inj (hraws.symm.trans htokens)
  refine ⟨_, houtline, ?_, ?_, ?_, ?_, ?_⟩
  · have hdeeper : ∀ k ≤ 2, 0 < k → lineColumn (Sample.linesAt [2, 4, 4, 2, 0]) 0 <
        lineColumn (Sample.linesAt [2, 4, 4, 2, 0]) k := by decide +kernel
    exact (hnest 0 2).1.mpr ⟨by decide, fun k hk hk2 => hdeeper k hk2 hk⟩
  · exact fun h => absurd (((hnest 1 2).1.mp h).2 2 (by decide) le_rfl) (by decide +kernel)
  · exact fun h => absurd (((hnest 0 3).1.mp h).2 3 (by decide) le_rfl) (by decide +kernel)
  · exact (hnest 0 3).2.mpr (by decide +kernel)
  · exact fun h => absurd ((hnest 0 4).2.mp h) (by decide +kernel)

end LayoutRule
