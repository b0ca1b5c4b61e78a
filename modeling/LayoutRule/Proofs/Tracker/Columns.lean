import LayoutRule.Proofs.Tracker.Rows

/-! # Columns and nesting

From one row to the next a column is opened or the innermost ones are closed, so rows that stay deeper than
an earlier one keep its columns open. Under the strict policy a row stands at the innermost column that is
open along it, and depth can be read off columns. -/

namespace LayoutRule

/-! ### Nested columns inside one another -/

namespace Nested

theorem of_suffix {outer opened : List ℕ} (h : Nested opened) (hs : outer <:+ opened) : Nested outer := by
  obtain ⟨inner, rfl⟩ := hs
  exact h.of_append_right

theorem headD_lt_of_suffix {outer opened : List ℕ} (h : Nested opened) (hs : outer <:+ opened)
    (hlt : outer.length < opened.length) : outer.headD 0 < opened.headD 0 := by
  obtain ⟨inner, rfl⟩ := hs
  cases inner with
  | nil => simp at hlt
  | cons c inner =>
      cases outer with
      | nil => exact h.positive c (by simp)
      | cons d outer => exact List.rel_of_pairwise_cons h.decreasing (by simp)

/-- Of two stacks of columns, one inside the other, the deeper one ends further right. -/
theorem length_lt_iff_of_suffix {outer opened : List ℕ} (h : Nested opened) (hs : outer <:+ opened) :
    outer.length < opened.length ↔ outer.headD 0 < opened.headD 0 := by
  refine ⟨h.headD_lt_of_suffix hs, fun hlt => ?_⟩
  by_contra hle
  obtain rfl := hs.eq_of_length_le (Nat.le_of_not_lt hle)
  exact lt_irrefl _ hlt

theorem headD_le_of_suffix {outer opened : List ℕ} (h : Nested opened) (hs : outer <:+ opened) :
    outer.headD 0 ≤ opened.headD 0 := by
  rcases hs.length_le.lt_or_eq with hlt | heq
  · exact (h.headD_lt_of_suffix hs hlt).le
  · rw [hs.eq_of_length heq]

/-- The innermost column is the column measured, if that is one of the levels. -/
theorem headD_dropWhile {opened : List ℕ} (h : Nested opened) {c : ℕ} (hc : c ∈ 0 :: opened) :
    (opened.dropWhile (c < ·)).headD 0 = c := by
  have hd := h.decreasing
  clear h
  induction opened with
  | nil => simpa using (List.mem_singleton.mp hc).symm
  | cons d opened ih =>
      by_cases hlt : c < d
      · rw [List.dropWhile_cons_of_pos (by simpa using hlt)]
        refine ih ?_ hd.tail
        rcases List.mem_cons.mp hc with rfl | hc
        · simp
        · rcases List.mem_cons.mp hc with rfl | hc
          · omega
          · exact List.mem_cons_of_mem _ hc
      · rw [List.dropWhile_cons_of_neg (by simpa using hlt), List.headD_cons]
        rcases List.mem_cons.mp hc with rfl | hc
        · omega
        · rcases List.mem_cons.mp hc with rfl | hc
          · rfl
          · have := List.rel_of_pairwise_cons hd hc
            omega

end Nested

/-! ### From row to row -/

/-- One column is opened, or some of the innermost are closed. -/
def Turn (op op' : List ℕ) : Prop := (∃ c, op' = c :: op) ∨ op' <:+ op

theorem Tracker.turn_measure {t : Tracker} {raw : Token} {e : Effect} (h : t.measure raw = .ok e) :
    Turn t.opened e.opened := by
  rcases measure_eq_ok h with ⟨-, rfl⟩ | ⟨-, -, rfl⟩
  · exact Or.inl ⟨_, rfl⟩
  · exact Or.inr (List.dropWhile_suffix _)

theorem Nested.measure {t : Tracker} {raw : Token} {e : Effect} (hn : Nested t.opened)
    (h : t.measure raw = .ok e) : Nested e.opened := by
  rcases Tracker.measure_eq_ok h with ⟨hc, rfl⟩ | ⟨-, -, rfl⟩
  · exact hn.cons hc
  · exact hn.of_suffix (List.dropWhile_suffix _)

/-- Under the strict policy a measured token leaves its own column innermost. -/
theorem Tracker.headD_of_strict {t : Tracker} {raw : Token} {e : Effect} (hn : Nested t.opened)
    (hstrict : t.config.dedent = .strict) (h : t.measure raw = .ok e) :
    e.opened.headD 0 = raw.column := by
  rcases measure_eq_ok h with ⟨-, rfl⟩ | ⟨-, hlevel, rfl⟩
  · rfl
  · refine hn.headD_dropWhile ?_
    simpa using (t.mem_levels raw.column).mp (hlevel hstrict)

theorem Turn.nested_or {op op' base : List ℕ} (h : Turn op op') (hbase : base <:+ op) :
    base <:+ op' ∨ op' <:+ base := by
  rcases h with ⟨c, rfl⟩ | h
  · exact Or.inl (hbase.trans (List.suffix_cons c op))
  · exact List.suffix_or_suffix_of_suffix hbase h

section Sequence

variable {op : ℕ → List ℕ}

/-- Columns stay open until a row has closed one of them. -/
theorem suffix_of_not_suffix (hturn : ∀ k, Turn (op k) (op (k + 1))) {i j : ℕ} (hij : i ≤ j)
    (h : ∀ k, i < k → k ≤ j → ¬op k <:+ op i) : op i <:+ op j := by
  induction j, hij using Nat.le_induction with
  | base => exact List.suffix_rfl
  | succ j hij ih =>
      have hopen := ih fun k hik hkj => h k hik (by omega)
      exact ((hturn j).nested_or hopen).resolve_right (h (j + 1) (by omega) le_rfl)

/-- Rows stay deeper than an earlier one exactly as long as they stay right of it. -/
theorem depths_iff_columns (hnested : ∀ k, Nested (op k)) (hturn : ∀ k, Turn (op k) (op (k + 1)))
    (i j : ℕ) :
    (∀ k, i < k → k ≤ j → (op i).length < (op k).length) ↔
      ∀ k, i < k → k ≤ j → (op i).headD 0 < (op k).headD 0 := by
  have hopen (k : ℕ) (hik : i < k) (h : ∀ l, i < l → l ≤ k → ¬op l <:+ op i) :
      (op i).length < (op k).length ↔ (op i).headD 0 < (op k).headD 0 :=
    (hnested k).length_lt_iff_of_suffix (suffix_of_not_suffix hturn hik.le h)
  constructor
  · intro h k hik hkj
    apply (hopen k hik ?_).mp (h k hik hkj)
    intro l hil hlk hs
    exact absurd hs.length_le (Nat.not_le_of_lt (h l hil (by omega)))
  · intro h k hik hkj
    apply (hopen k hik ?_).mpr (h k hik hkj)
    intro l hil hlk hs
    exact absurd ((hnested i).headD_le_of_suffix hs) (Nat.not_le_of_lt (h l hil (by omega)))

end Sequence

/-! ### The columns of rows -/

/-- The columns open along a row; none behind the last one. -/
def openedAt (rows : List Row) (k : ℕ) : List ℕ := (rows[k]?.map Row.opened).getD []

@[simp] theorem openedAt_nil (k : ℕ) : openedAt [] k = [] := rfl

@[simp] theorem openedAt_cons_zero (row : Row) (rows : List Row) :
    openedAt (row :: rows) 0 = row.opened := rfl

theorem openedAt_eq_opened {rows : List Row} {k : ℕ} (hk : k < rows.length) : openedAt rows k = rows[k].opened := by
  simp [openedAt, List.getElem?_eq_getElem hk]

/-- The column of the first token of a source line; 0 behind the last one. -/
def lineColumn (raws : List Token) (k : ℕ) : ℕ :=
  (((sourceLines raws)[k]?.bind List.head?).map Token.column).getD 0

namespace Rows

variable {config : TrackerConfig} {line : ℕ} {opened : List ℕ} {raws out : List Token}
  {rows : List Row}

theorem turn (h : Rows config line opened raws out rows) :
    Turn opened (openedAt rows 0) ∧ ∀ k, Turn (openedAt rows k) (openedAt rows (k + 1)) := by
  have hnone (op : List ℕ) : Turn op [] := Or.inr List.nil_suffix
  induction h with
  | finish => exact ⟨hnone _, fun k => hnone _⟩
  | blank _ _ _ ih => exact ih
  | row _ he _ _ _ ih =>
      refine ⟨Tracker.turn_measure he, fun k => ?_⟩
      cases k with
      | zero => exact ih.1
      | succ k => exact ih.2 k

theorem nested (h : Rows config line opened raws out rows) (hn : Nested opened) (k : ℕ) :
    Nested (openedAt rows k) := by
  induction h generalizing k with
  | finish => exact .nil
  | blank _ _ _ ih => exact ih hn k
  | row _ he _ _ _ ih =>
      have hrow := hn.measure he
      cases k with
      | zero => exact hrow
      | succ k => exact ih hrow k

/-- Under the strict policy a row stands at the innermost of its columns. -/
theorem headD_openedAt (h : Rows config line opened raws out rows) (hstrict : config.dedent = .strict)
    (hn : Nested opened) (k : ℕ) : (openedAt rows k).headD 0 = lineColumn raws k := by
  have hlines : lineColumn raws k =
      ((rows[k]?.bind fun r => r.tokens.head?).map Token.column).getD 0 := by
    rw [lineColumn, ← h.map_tokens, List.getElem?_map]
    cases rows[k]? <;> rfl
  rw [hlines]
  clear hlines
  induction h generalizing k with
  | finish => rfl
  | blank _ _ _ ih => exact ih hn k
  | @row line first rest raws out rows t e hconfig he _ _ _ ih =>
      cases k with
      | zero => exact Tracker.headD_of_strict hn (hconfig ▸ hstrict) he
      | succ k => exact ih (hn.measure he) k

/-- Under the strict policy rows stay deeper than an earlier one exactly as long as their lines begin right
of its line. -/
theorem depths_iff_columns (h : Rows config line [] raws out rows) (hstrict : config.dedent = .strict)
    (i j : ℕ) :
    (∀ k, i < k → k ≤ j → (openedAt rows i).length < (openedAt rows k).length) ↔
      ∀ k, i < k → k ≤ j → lineColumn raws i < lineColumn raws k := by
  simp only [← h.headD_openedAt hstrict .nil]
  exact LayoutRule.depths_iff_columns (h.nested .nil) h.turn.2 i j

end Rows

end LayoutRule
