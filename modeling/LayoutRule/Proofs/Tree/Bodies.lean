import LayoutRule.Proofs.Tracker.Origin
import LayoutRule.Proofs.Tree.Depth

/-! # Bodies

The lines of a body begin right of every level that is open behind the first token of their header. A header that is
a ragged dedent does not stand on a level itself, so a line of its body may begin left of it. -/

namespace LayoutRule

open TokenSource

/-! ### Columns of rows -/

/-- A measured token stands on the innermost of its columns or right of it. -/
theorem Tracker.headD_le_of_measure {t : Tracker} {raw : Token} {e : Effect} (h : t.measure raw = .ok e) :
    e.opened.headD 0 ≤ raw.column := by
  rcases measure_eq_ok h with ⟨-, rfl⟩ | ⟨-, -, rfl⟩
  · exact le_rfl
  · have hhead := List.head?_dropWhile_not (raw.column < ·) t.opened
    cases hopened : t.opened.dropWhile (raw.column < ·) with
    | nil => exact Nat.zero_le _
    | cons c opened => simpa [hopened] using hhead

theorem Rows.headD_le {config : TrackerConfig} {line : ℕ} {opened : List ℕ} {raws out : List Token}
    {rows : List Row} (h : Rows config line opened raws out rows) :
    ∀ row ∈ rows, ∃ first rest, row.tokens = first :: rest ∧ row.opened.headD 0 ≤ first.column := by
  induction h with
  | finish => simp
  | blank _ _ _ ih => exact ih
  | @row line first rest raws out rows t e _ he _ _ _ ih =>
      intro row hrow
      rcases List.mem_cons.mp hrow with rfl | hrow
      · exact ⟨first, rest, rfl, Tracker.headD_le_of_measure he⟩
      · exact ih row hrow

/-- The columns of a row are what measuring its first token makes of the columns `outer`. -/
def Row.MeasuredIn (row : Row) (outer : List ℕ) : Prop :=
  ∃ (t : Tracker) (first : Token) (rest : List Token) (e : Effect), t.opened = outer ∧ row.tokens = first :: rest ∧
    t.measure first = .ok e ∧ e.opened = row.opened

theorem Rows.measuredIn {config : TrackerConfig} {line : ℕ} {opened : List ℕ} {raws out : List Token}
    {rows : List Row} (h : Rows config line opened raws out rows) :
    (∀ row ∈ rows[0]?, row.MeasuredIn opened) ∧ ∀ k, ∀ row ∈ rows[k + 1]?, row.MeasuredIn (openedAt rows k) := by
  induction h with
  | finish => simp
  | blank _ _ _ ih => exact ih
  | @row line first rest raws out rows t e _ he _ _ _ ih =>
      constructor
      · rintro row hrow
        obtain rfl := Option.some.inj hrow
        exact ⟨t, first, rest, e, rfl, rfl, he, rfl⟩
      · intro k row hrow
        cases k with
        | zero => exact ih.1 row hrow
        | succ k => exact ih.2 k row hrow

theorem Nested.le_headD_of_mem_levels {t : Tracker} (hn : Nested t.opened) {level : ℕ}
    (h : level ∈ t.levels) : level ≤ t.opened.headD 0 := by
  rcases (t.mem_levels level).mp h with rfl | h
  · exact Nat.zero_le _
  · exact hn.le_headD h

/-- A measured token opens a column exactly if it stands right of all levels. -/
theorem Tracker.length_lt_of_measure_iff {t : Tracker} (hn : Nested t.opened) {raw : Token} {e : Effect}
    (h : t.measure raw = .ok e) : t.opened.length < e.opened.length ↔ ∀ level ∈ t.levels, level < raw.column := by
  have htop : t.top ∈ t.levels := List.mem_of_getLast? t.getLast?_levels
  rcases measure_eq_ok h with ⟨hright, rfl⟩ | ⟨hleft, -, rfl⟩
  · exact iff_of_true (Nat.lt_succ_self _) fun level hlevel => (hn.le_headD_of_mem_levels hlevel).trans_lt hright
  · exact iff_of_false (List.dropWhile_suffix _).length_le.not_gt fun hall => (hall _ htop).not_ge hleft

/-! ### Children -/

namespace Node

theorem mem_walkList_of_getElem? {a : List ℕ} {i m : ℕ} {ns : List Node} {n : Node} (h : ns[m]? = some n) :
    (a ++ [i + m], n) ∈ walkList a i ns := by
  induction ns generalizing i m with
  | nil => simp at h
  | cons n' ns ih =>
      rw [walkList_cons]
      cases m with
      | zero =>
          obtain rfl : n' = n := by simpa using h
          simp
      | succ m =>
          have hrest := ih (i := i + 1) (by simpa using h)
          rw [Nat.add_right_comm] at hrest
          exact List.mem_append_right _ hrest

/-- The children of a node that is visited are visited as well. -/
theorem mem_walkList_of_child {a b : List ℕ} {i m : ℕ} {ns : List Node} {n child : Node}
    (h : (b, n) ∈ walkList a i ns) (hchild : n.children[m]? = some child) :
    (b ++ [m], child) ∈ walkList a i ns := by
  induction ns using forest_induction generalizing a i with
  | nil => simp [walkList] at h
  | cons n' ns ihn ihns =>
      rw [walkList_cons] at h ⊢
      rcases List.mem_append.mp h with h | h
      · refine List.mem_append_left _ (List.mem_cons_of_mem _ ?_)
        rcases List.mem_cons.mp h with heq | h
        · obtain ⟨rfl, rfl⟩ := Prod.mk.inj heq
          simpa using mem_walkList_of_getElem? (a := a ++ [i]) (i := 0) hchild
        · exact ihn h
      · exact List.mem_append_right _ (ihns h)

/-- A walk goes down to the first node inside exactly if it comes to a deeper one. -/
theorem Next.eq_append_zero_iff {a b : List ℕ} (h : Next a b) : b = a ++ [0] ↔ a.length < b.length := by
  constructor
  · rintro rfl
    simp
  · intro hlt
    rcases h with hinside | ⟨outer, i, inner, rfl, rfl⟩
    · exact hinside
    · simp only [List.length_append, List.length_cons, List.length_nil] at hlt
      omega

end Node

open Node

/-! ### Bodies of rows -/

namespace Laid

variable {forest : List Node} {blocks : ℕ} {rows : List Row}

/-- A statement that is visited is the node of a row. -/
theorem exists_row_of_visit (h : Laid forest blocks rows) {a : List ℕ} {tokens : List Token}
    {body : List Node} (hmem : (a, .statement tokens body) ∈ walkForest forest) :
    ∃ i, ∃ hi : i < rows.length, (Node.statements forest)[i]?.map Prod.fst = some a ∧ rows[i].tokens = tokens := by
  obtain ⟨k, hvisit⟩ := List.getElem?_of_mem hmem
  have hk := (List.getElem?_eq_some_iff.mp hvisit).1
  rw [h.length_walkForest] at hk
  obtain ⟨i, rfl⟩ : ∃ i, k = blocks + i := by
    refine Nat.exists_eq_add_of_le (Nat.le_of_not_lt fun hlt => ?_)
    obtain ⟨children, hblock, -⟩ := h.visit_of_lt hlt
    cases (Prod.mk.inj (Option.some.inj (hblock.symm.trans hvisit))).2
  have hi : i < rows.length := by omega
  obtain ⟨n, hrow, -, htokens⟩ := h.visit_of_row hi
  obtain ⟨haddress, rfl⟩ := Prod.mk.inj (Option.some.inj (hrow.symm.trans hvisit))
  refine ⟨i, hi, ?_, ?_⟩
  · rw [h.statement_address hi, haddress]
  · simpa using htokens.symm

/-- Nodes in a body are statements, and their rows stand right of the row of the header. -/
theorem row_of_child (h : Laid forest blocks rows) {config : TrackerConfig} {line : ℕ} {raws out : List Token}
    (hrows : Rows config line [] raws out rows) {a : List ℕ} {tokens : List Token} {body : List Node}
    (hmem : (a, .statement tokens body) ∈ walkForest forest) {child : Node} (hchild : child ∈ body) :
    ∃ header ∈ rows, ∃ row ∈ rows, header.tokens = tokens ∧ (∃ body', child = .statement row.tokens body') ∧
      header.opened.headD 0 < row.opened.headD 0 := by
  obtain ⟨m, hplace⟩ := List.getElem?_of_mem hchild
  have hinside : (a ++ [m], child) ∈ walkForest forest := mem_walkList_of_child hmem hplace
  obtain ⟨tokens', body', rfl⟩ : ∃ tokens' body', child = .statement tokens' body' := by
    cases child with
    | statement tokens' body' => exact ⟨tokens', body', rfl⟩
    | block children =>
        -- A block by itself stands at the top, and what has a body does not stand above the top.
        obtain ⟨k, hvisit⟩ := List.getElem?_of_mem hinside
        obtain ⟨-, htop, -⟩ := h.first_of_block hvisit
        obtain ⟨j, -, hbelow⟩ := exists_place_of_mem_walkList _ hmem
        have hdepth := congrArg List.length htop
        have hlength := hbelow.length_le
        simp only [List.nil_append, List.length_append, List.length_singleton] at hdepth hlength
        omega
  obtain ⟨i, hi, ha, hheader⟩ := h.exists_row_of_visit hmem
  obtain ⟨j, hj, hb, hrow⟩ := h.exists_row_of_visit hinside
  have hencloses : Encloses forest i j := ⟨a, a ++ [m], ha, hb, List.prefix_append a [m], by simp⟩
  obtain ⟨hij, hdepths⟩ := (h.encloses_iff hj).mp hencloses
  have hcolumns := (depths_iff_columns (hrows.nested .nil) hrows.turn.2 i j).mp hdepths j hij le_rfl
  refine ⟨rows[i], List.getElem_mem hi, rows[j], List.getElem_mem hj, hheader, ⟨body', by rw [hrow]⟩, ?_⟩
  rwa [openedAt_eq_opened hi, openedAt_eq_opened hj] at hcolumns

theorem row_of_statement_at (h : Laid forest blocks rows) {i : ℕ} {a : List ℕ} {tokens : List Token}
    (hi : (Node.statements forest)[i]? = some (a, tokens)) : ∃ hlt : i < rows.length, tokens = rows[i].tokens := by
  have hlt : i < rows.length := h.length_statements ▸ (List.getElem?_eq_some_iff.mp hi).1
  refine ⟨hlt, ?_⟩
  have hmap := congrArg (·[i]?) h.statements.1
  simpa [hi, List.getElem?_eq_getElem hlt] using hmap

/-- The statement of the next row comes first in the body of a row exactly if a column is opened for it. -/
theorem next_address_iff (h : Laid forest blocks rows) {i : ℕ} (hi : i + 1 < rows.length) {a b : List ℕ}
    {tokens tokens' : List Token} (ha : (Node.statements forest)[i]? = some (a, tokens))
    (hb : (Node.statements forest)[i + 1]? = some (b, tokens')) :
    b = a ++ [0] ↔ (openedAt rows i).length < (openedAt rows (i + 1)).length := by
  have hlength := h.length_walkForest
  have haddress := h.statement_address (Nat.lt_of_succ_lt hi)
  have hnext := h.statement_address hi
  simp only [ha, hb, Option.map_some, Option.some.injEq] at haddress hnext
  obtain ⟨-, -, hdepth, -⟩ := h.visit_of_row (Nat.lt_of_succ_lt hi)
  obtain ⟨-, -, hdepth', -⟩ := h.visit_of_row hi
  have hstep : Next (addressAt forest (blocks + i)) (addressAt forest (blocks + (i + 1))) := next_addressAt (by omega)
  rw [haddress, hnext, hstep.eq_append_zero_iff, hdepth, hdepth', Nat.add_lt_add_iff_right]

/-- The line behind a row comes first in its body exactly if it stands right of the levels along the row. -/
theorem exists_first_of_next (h : Laid forest blocks rows) {config : TrackerConfig} {line : ℕ} {raws out : List Token}
    (hrows : Rows config line [] raws out rows) {i : ℕ} {a b : List ℕ} {tokens tokens' : List Token}
    (ha : (Node.statements forest)[i]? = some (a, tokens))
    (hb : (Node.statements forest)[i + 1]? = some (b, tokens')) {u : Tracker} (hu : u.opened = openedAt rows i) :
    ∃ first rest, tokens' = first :: rest ∧ (b = a ++ [0] ↔ ∀ level ∈ u.levels, level < first.column) := by
  obtain ⟨hnext, htokens⟩ := h.row_of_statement_at hb
  obtain ⟨t, first, rest, e, ht, hfirst, hmeasure, he⟩ :=
    hrows.measuredIn.2 i rows[i + 1] (List.getElem?_eq_getElem hnext)
  have hlevels : u.levels = t.levels := by rw [Tracker.levels, Tracker.levels, hu, ht]
  refine ⟨first, rest, htokens.trans hfirst, ?_⟩
  rw [h.next_address_iff hnext ha hb, openedAt_eq_opened hnext, ← he, ← ht, hlevels]
  exact Tracker.length_lt_of_measure_iff (ht ▸ hrows.nested .nil i) hmeasure

end Laid

/-! ### Headers and their bodies -/

/-- Behind the first token of a header all open levels stand left of the lines of its body, and none stands right
of the header. So a body stands right of its header if that stands on a level.

A header stands on a level unless it is a ragged dedent for the tracker that takes its first token. The line directly
behind a header comes first in its body exactly if it stands right of all these levels; if the header is ragged, such
a line may stand left of it. -/
theorem bodies_stand_right_of_levels {config : TrackerConfig} {text : String} {forest : List Node}
    (h : outlineText config text = .ok forest) :
    let s := Tracked.start config (Scanner.ofText text)
    (∀ a tokens body, (a, .statement tokens body) ∈ walkForest forest → ∀ child ∈ body,
      ∃ header rest n, tokens = header :: rest ∧ (∀ m, (TokenSource.pull (after m s)).1 = .ok header ↔ m = n) ∧
        ∃ first rest' body', child = .statement (first :: rest') body' ∧
          (∀ level ∈ (after (n + 1) s).tracker.levels, level ≤ header.column ∧ level < first.column) ∧
          (header.column ∈ (after (n + 1) s).tracker.levels → header.column < first.column)) ∧
      ∀ i a tokens, (statements forest)[i]? = some (a, tokens) →
        ∃ header rest n, tokens = header :: rest ∧ (∀ m, (TokenSource.pull (after m s)).1 = .ok header ↔ m = n) ∧
          (∃ k ≤ n, (after k s).Takes header ∧
            (header.column ∈ (after (n + 1) s).tracker.levels ↔ ¬(after k s).tracker.Ragged header)) ∧
          ∀ b tokens', (statements forest)[i + 1]? = some (b, tokens') → ∃ first rest', tokens' = first :: rest' ∧
            (b = a ++ [0] ↔ ∀ level ∈ (after (n + 1) s).tracker.levels, level < first.column) := by
  intro s
  obtain ⟨raws, out, rows, blocks, hraws, hrows, hlaid⟩ := exists_laid_of_outlineText h
  obtain ⟨lexed, hlex⟩ := exists_lexWith_of_outlineText h
  have hnested (n : ℕ) : Nested (after n s).tracker.opened :=
    (Tracked.steady_after (s := s) (Tracker.steady_start config) n).nested
  refine ⟨fun a tokens body hmem child hchild => ?_, fun i a tokens hi => ?_⟩
  · obtain ⟨outer, houter, inner, hinner, rfl, ⟨body', rfl⟩, hright⟩ := hlaid.row_of_child hrows hmem hchild
    obtain ⟨header, rest, n, htokens, hmoment, hopened, -⟩ := hrows.exists_moment hraws hlex outer houter
    obtain ⟨header', rest', htokens', hheader⟩ := hrows.headD_le outer houter
    obtain ⟨rfl, rfl⟩ := List.cons.inj (htokens.symm.trans htokens')
    obtain ⟨first, rest', hfirst, hcolumn⟩ := hrows.headD_le inner hinner
    have hlevels : ∀ level ∈ (after (n + 1) s).tracker.levels, level ≤ header.column ∧ level < first.column := by
      intro level hlevel
      have htop := (hnested (n + 1)).le_headD_of_mem_levels hlevel
      rw [hopened] at htop
      exact ⟨by omega, by omega⟩
    exact ⟨header, rest, n, htokens, hmoment, first, rest', body', by rw [hfirst], hlevels,
      fun hlevel => (hlevels _ hlevel).2⟩
  · obtain ⟨hlt, htokens⟩ := hlaid.row_of_statement_at hi
    obtain ⟨header, rest, n, hheader, hmoment, hopened, k, hkn, htakes, e, hmeasure, he⟩ :=
      hrows.exists_moment hraws hlex rows[i] (List.getElem_mem hlt)
    have hlevel := Tracker.mem_levels_of_measure_iff (hnested k) hmeasure (hopened.trans he.symm)
    exact ⟨header, rest, n, htokens.trans hheader, hmoment, ⟨k, hkn, htakes, hlevel⟩, fun b tokens' hb =>
      hlaid.exists_first_of_next hrows hi hb (hopened.trans (openedAt_eq_opened hlt).symm)⟩

private theorem exists_ragged_header :
    ∃ forest, outlineText .lenient (Sample.textAt [0, 4, 8, 6, 5]) = .ok forest ∧
      ([0, 1], .statement [Sample.nameToken "t4" 4 6 27] [.statement [Sample.nameToken "t5" 5 5 35] []]) ∈
        walkForest forest ∧
      (statements forest)[3]? = some ([0, 1], [Sample.nameToken "t4" 4 6 27]) := by
  have houtline : outlineText .lenient (Sample.textAt [0, 4, 8, 6, 5]) = .ok
      [.statement [Sample.nameToken "t1" 1 0 0]
        [.statement [Sample.nameToken "t2" 2 4 7] [.statement [Sample.nameToken "t3" 3 8 18] []],
        .statement [Sample.nameToken "t4" 4 6 27] [.statement [Sample.nameToken "t5" 5 5 35] []]]] := by
    decide +kernel
  exact ⟨_, houtline, by decide +kernel, by decide +kernel⟩

/-- The fourth line is a ragged dedent to between the levels 4 and 8. The fifth stands in its body, right of the
levels 0 and 4. -/
theorem bodies_stand_right_of_levels_ragged :
    let s := Tracked.start .lenient (Scanner.ofText (Sample.textAt [0, 4, 8, 6, 5]))
    let fourth := Sample.nameToken "t4" 4 6 27
    let fifth := Sample.nameToken "t5" 5 5 35
    ∃ forest n, outlineText .lenient (Sample.textAt [0, 4, 8, 6, 5]) = .ok forest ∧
      ([0, 1], .statement [fourth] [.statement [fifth] []]) ∈ walkForest forest ∧
      (∀ m, (TokenSource.pull (after m s)).1 = .ok fourth ↔ m = n) ∧
      (∀ level ∈ (after (n + 1) s).tracker.levels, level < fifth.column) ∧
      ∃ k ≤ n, (after k s).Takes fourth ∧ (after k s).tracker.Ragged fourth := by
  intro s fourth fifth
  obtain ⟨forest, houtline, hmem, hplace⟩ := exists_ragged_header
  obtain ⟨hbodies, hlines⟩ := bodies_stand_right_of_levels houtline
  obtain ⟨header, rest, n, htokens, hmoment, first, rest', body', hchild, hlevels, hright⟩ :=
    hbodies _ _ _ hmem _ List.mem_cons_self
  obtain ⟨rfl, -⟩ := List.cons.inj htokens
  obtain ⟨hfirst, -⟩ := Node.statement.inj hchild
  obtain ⟨rfl, -⟩ := List.cons.inj hfirst
  obtain ⟨header', rest'', n', htokens', hmoment', ⟨k, hk, htakes, hragged⟩, -⟩ := hlines 3 _ _ hplace
  obtain ⟨rfl, -⟩ := List.cons.inj htokens'
  obtain rfl : n' = n := (hmoment n').mp ((hmoment' n').mpr rfl)
  have hlevel : fourth.column ∉ (after (n' + 1) s).tracker.levels := fun hlevel => absurd (hright hlevel) (by decide)
  refine ⟨forest, n', houtline, hmem, hmoment, fun level hlevel => (hlevels level hlevel).2, k, hk, htakes, ?_⟩
  by_contra hregular
  exact hlevel (hragged.mpr hregular)

/-- A line that moves left can come to stand in the body of the line before it, if that is a ragged dedent. -/
theorem body_left_of_ragged_header :
    let fourth := Sample.nameToken "t4" 4 6 27
    let fifth := Sample.nameToken "t5" 5 5 35
    (∃ forest, outlineText .lenient (Sample.textAt [0, 4, 8, 6, 5]) = .ok forest ∧
      ([0, 1], .statement [fourth] [.statement [fifth] []]) ∈ walkForest forest) ∧
      ¬fourth.column ≤ fifth.column := by
  intro fourth fifth
  obtain ⟨forest, houtline, hmem, -⟩ := exists_ragged_header
  exact ⟨⟨forest, houtline, hmem⟩, by decide⟩

end LayoutRule
