import LayoutRule.Proofs.Tracker.Columns
import Mathlib.Data.List.Infix
import Mathlib.Order.Bounds.Basic

/-! # Histories of columns

Under the strict policy the levels can be read off the columns at which the lines have begun so far, without
the tracker: a column is open as long as no line has begun left of it since. A line is ragged if it begins
left of the line before it, at a column that is not open. -/

namespace LayoutRule

/-! ### Beginnings of lines -/

/-- The first token of each line, where lines are what stands between line breaks. -/
def lineFirsts (raws : List Token) : List Token :=
  (raws.splitOnP (·.kind = .lineBreak)).filterMap List.head?

/-- The tokens that begin a line; what stands before the first line break is only the rest of a line if none
begins there. -/
def firstsFrom (lineStart : Bool) (raws : List Token) : List Token :=
  ((raws.splitOnP (·.kind = .lineBreak)).drop (if lineStart then 0 else 1)).filterMap List.head?

@[simp] theorem firstsFrom_true (raws : List Token) : firstsFrom true raws = lineFirsts raws := rfl

@[simp] theorem firstsFrom_nil (lineStart : Bool) : firstsFrom lineStart [] = [] := by
  cases lineStart <;> rfl

theorem firstsFrom_cons (lineStart : Bool) (raw : Token) (raws : List Token) :
    firstsFrom lineStart (raw :: raws) =
      (if lineStart = true ∧ raw.kind ≠ .lineBreak then [raw] else []) ++
        firstsFrom (raw.kind = .lineBreak) raws := by
  unfold firstsFrom
  rw [List.splitOnP_cons_eq_if_modifyHead]
  by_cases hb : raw.kind = .lineBreak
  · cases lineStart <;> simp [hb, List.filterMap_cons]
  · cases hparts : raws.splitOnP (·.kind = .lineBreak) with
    | nil => exact absurd hparts (List.splitOnP_ne_nil _ _)
    | cons line lines => cases lineStart <;> simp [hb]

theorem exists_firstsFrom_append (lineStart : Bool) (before behind : List Token) :
    ∃ lineStart', firstsFrom lineStart (before ++ behind) =
      firstsFrom lineStart before ++ firstsFrom lineStart' behind := by
  induction before generalizing lineStart with
  | nil => exact ⟨lineStart, by simp⟩
  | cons raw before ih =>
      obtain ⟨lineStart', happend⟩ := ih (decide (raw.kind = .lineBreak))
      exact ⟨lineStart', by rw [List.cons_append, firstsFrom_cons, happend, firstsFrom_cons, List.append_assoc]⟩

/-- Tokens still to come begin no lines further up. -/
theorem lineFirsts_take (raws : List Token) (k : ℕ) :
    lineFirsts (raws.take k) = (lineFirsts raws).take (lineFirsts (raws.take k)).length := by
  obtain ⟨lineStart, happend⟩ := exists_firstsFrom_append true (raws.take k) (raws.drop k)
  rw [List.take_append_drop, firstsFrom_true, firstsFrom_true] at happend
  rw [happend, List.take_left]

/-! ### Open columns and ragged lines -/

/-- The column is 0, or the one of a line, and no line has begun left of it since. -/
def LeftOpen (columns : List ℕ) (c : ℕ) : Prop :=
  c = 0 ∨ ∃ later, c :: later <:+ columns ∧ ∀ d ∈ later, c ≤ d

/-- The line behind `i` others begins left of the one before it, at a column that the lines before it have not
left open. The first line has column 0 before it. -/
def RaggedAt (columns : List ℕ) (i : ℕ) : Prop :=
  ∃ c ∈ columns[i]?, c < (columns.take i).getLastD 0 ∧ ¬LeftOpen (columns.take i) c

instance (columns : List ℕ) (c : ℕ) : Decidable (LeftOpen columns c) :=
  decidable_of_iff (c = 0 ∨ ∃ tail ∈ columns.tails, tail.head? = some c ∧ ∀ d ∈ tail, c ≤ d) <| by
    refine or_congr_right ⟨?_, ?_⟩
    · rintro ⟨tail, htail, hhead, hle⟩
      obtain ⟨later, rfl⟩ := List.head?_eq_some_iff.mp hhead
      exact ⟨later, (List.mem_tails _ _).mp htail, fun d hd => hle d (by simp [hd])⟩
    · rintro ⟨later, hsuffix, hle⟩
      exact ⟨c :: later, (List.mem_tails _ _).mpr hsuffix, rfl, by simpa using hle⟩

instance (columns : List ℕ) (i : ℕ) : Decidable (RaggedAt columns i) :=
  inferInstanceAs (Decidable (∃ c ∈ columns[i]?, _))

example : (List.range 6).filter (RaggedAt [0, 4, 8, 6, 4, 5]) = [3] := by decide

theorem leftOpen_nil (c : ℕ) : LeftOpen [] c ↔ c = 0 := by
  simp [LeftOpen]

theorem leftOpen_concat (columns : List ℕ) (c d : ℕ) :
    LeftOpen (columns ++ [c]) d ↔ d = c ∨ LeftOpen columns d ∧ d ≤ c := by
  constructor
  · rintro (rfl | ⟨later, hsuffix, hlater⟩)
    · exact Or.inr ⟨Or.inl rfl, Nat.zero_le c⟩
    · rcases List.suffix_concat_iff.mp hsuffix with hnil | ⟨front, hfront, hbefore⟩
      · cases hnil
      · cases front with
        | nil => exact Or.inl (List.cons.inj hfront).1
        | cons d' front =>
            obtain ⟨rfl, rfl⟩ := List.cons.inj hfront
            refine Or.inr ⟨Or.inr ⟨front, hbefore, fun a ha => hlater a (by simp [ha])⟩, ?_⟩
            exact hlater c (by simp)
  · rintro (rfl | ⟨rfl | ⟨later, hsuffix, hlater⟩, hle⟩)
    · exact Or.inr ⟨[], List.suffix_append columns [d], by simp⟩
    · exact Or.inl rfl
    · refine Or.inr ⟨later ++ [c], List.suffix_concat_iff.mpr (Or.inr ⟨d :: later, rfl, hsuffix⟩), ?_⟩
      intro a ha
      rcases List.mem_append.mp ha with ha | ha
      · exact hlater a ha
      · rwa [List.mem_singleton.mp ha]

theorem raggedAt_length (before : List ℕ) (c : ℕ) (behind : List ℕ) :
    RaggedAt (before ++ c :: behind) before.length ↔ c < before.getLastD 0 ∧ ¬LeftOpen before c := by
  simp [RaggedAt]

theorem raggedAt_append_of_lt {before : List ℕ} (behind : List ℕ) {i : ℕ} (hi : i < before.length) :
    RaggedAt (before ++ behind) i ↔ RaggedAt before i := by
  simp [RaggedAt, List.getElem?_append_left hi, List.take_append_of_le_length hi.le]

theorem RaggedAt.lt_length {columns : List ℕ} {i : ℕ} (h : RaggedAt columns i) : i < columns.length := by
  obtain ⟨c, hc, -⟩ := h
  exact (List.getElem?_eq_some_iff.mp hc).1

/-! ### Levels -/

/-- The open columns are those that the lines have left open, and the last line stands at the innermost. -/
structure Follows (opened columns : List ℕ) : Prop where
  nested : Nested opened
  innermost : opened.headD 0 = columns.getLastD 0
  mem_iff : ∀ c, c = 0 ∨ c ∈ opened ↔ LeftOpen columns c

namespace Follows

theorem nil : Follows [] [] := ⟨.nil, rfl, fun c => by simp [leftOpen_nil]⟩

/-- A line that is measured joins the history. -/
theorem measure {t : Tracker} {columns : List ℕ} (h : Follows t.opened columns)
    (hstrict : t.config.dedent = .strict) {raw : Token} {e : Effect} (he : t.measure raw = .ok e) :
    Follows e.opened (columns ++ [raw.column]) where
  nested := h.nested.measure he
  innermost := by rw [Tracker.headD_of_strict h.nested hstrict he, List.getLastD_concat]
  mem_iff c := by
    rw [leftOpen_concat, ← h.mem_iff]
    rcases Tracker.measure_eq_ok he with ⟨hright, rfl⟩ | ⟨-, hlevel, rfl⟩
    · have hle : c = 0 ∨ c ∈ t.opened → c ≤ raw.column := by
        rintro (rfl | hc)
        · exact Nat.zero_le _
        · exact (h.nested.le_headD hc).trans hright.le
      simp only [List.mem_cons]
      tauto
    · have hlevel := (t.mem_levels raw.column).mp (hlevel hstrict)
      simp only [h.nested.dropWhile_eq_filter, List.mem_filter, decide_eq_true_eq]
      constructor
      · rintro (rfl | ⟨hc, hle⟩)
        · exact Or.inr ⟨Or.inl rfl, Nat.zero_le _⟩
        · exact Or.inr ⟨Or.inr hc, hle⟩
      · rintro (rfl | ⟨rfl | hc, hle⟩)
        · exact hlevel.imp_right fun hc => ⟨hc, le_rfl⟩
        · exact Or.inl rfl
        · exact Or.inr ⟨hc, hle⟩

end Follows

namespace Tracker

/-- What a refusal names as nearest is the greatest level below. -/
theorem isGreatest_nearest {t : Tracker} (hn : Nested t.opened) {c : ℕ} (hc : 0 < c) :
    IsGreatest {level | level ∈ t.levels ∧ level < c} (t.nearest c) := by
  simp only [mem_levels, nearest]
  cases hfind : t.opened.find? (· < c) with
  | none =>
      refine ⟨⟨Or.inl rfl, hc⟩, ?_⟩
      rintro level ⟨rfl | hlevel, hlt⟩
      · exact le_rfl
      · exact absurd (decide_eq_true hlt) (List.find?_eq_none.mp hfind level hlevel)
  | some found =>
      obtain ⟨hlt, inner, outer, hopened, hinner⟩ := List.find?_eq_some_iff_append.mp hfind
      have houter := hopened ▸ hn.decreasing
      rw [hopened]
      refine ⟨⟨Or.inr (by simp), by simpa using hlt⟩, ?_⟩
      rintro level ⟨rfl | hlevel, hlevel_lt⟩
      · exact Nat.zero_le _
      · rcases List.mem_append.mp hlevel with hlevel | hlevel
        · have := hinner level hlevel
          simp [hlevel_lt] at this
        · rcases List.mem_cons.mp hlevel with rfl | hlevel
          · exact le_rfl
          · exact (List.rel_of_pairwise_cons (List.pairwise_append.mp houter).2.1 hlevel).le

/-! ### Runs -/

theorem firstsFrom_atLineStart (t : Tracker) {raw : Token} (hend : raw.isEnd = false) (raws : List Token) :
    firstsFrom t.atLineStart (raw :: raws) =
      firstsFrom t.atLineStart [raw] ++ firstsFrom (t.lineStartAfter raw) raws := by
  have hafter : t.lineStartAfter raw = decide (raw.kind = .lineBreak) := by
    by_cases hb : raw.kind = .lineBreak
    · simp [t.lineStartAfter_of_lineBreak hb, hb]
    · simp [t.lineStartAfter_of_content hb hend, hb]
  rw [firstsFrom_cons, firstsFrom_cons, hafter, firstsFrom_nil, List.append_nil]

/-- A raw token that is not refused does not begin a line, or it is measured. -/
theorem firstsFrom_singleton {t : Tracker} {raw : Token} {e : Effect} (hend : raw.isEnd = false)
    (he : t.effect raw = .ok e) :
    firstsFrom t.atLineStart [raw] = [] ∧ e.opened = t.opened ∨
      firstsFrom t.atLineStart [raw] = [raw] ∧ t.measure raw = .ok e := by
  rw [firstsFrom_cons, firstsFrom_nil, List.append_nil]
  by_cases hb : raw.kind = .lineBreak
  · rw [t.effect_of_lineBreak hb] at he
    exact Or.inl ⟨by simp [hb], by rw [← Except.ok.inj he]⟩
  · rw [t.effect_of_content hb hend] at he
    split at he
    · exact Or.inr ⟨by simp [*], he⟩
    · exact Or.inl ⟨by simp [*], by rw [← Except.ok.inj he]⟩

/-- A raw token joins the history if it begins a line. -/
theorem follows_effect {t : Tracker} {columns : List ℕ} (h : Follows t.opened columns)
    (hstrict : t.config.dedent = .strict) {raw : Token} {e : Effect} (hend : raw.isEnd = false)
    (he : t.effect raw = .ok e) :
    Follows e.opened (columns ++ (firstsFrom t.atLineStart [raw]).map Token.column) := by
  rcases firstsFrom_singleton hend he with ⟨hfirsts, hopened⟩ | ⟨hfirsts, hmeasure⟩
  · simpa [hfirsts, hopened] using h
  · simpa [hfirsts] using h.measure hstrict hmeasure

namespace Run

theorem firstsFrom_append {t t' : Tracker} {raws out : List Token} (h : t.Run raws out t')
    (hend : ∀ raw ∈ raws, raw.isEnd = false) (more : List Token) :
    firstsFrom t.atLineStart (raws ++ more) =
      firstsFrom t.atLineStart raws ++ firstsFrom t'.atLineStart more := by
  induction h with
  | nil => simp
  | @cons t raw raws e out t' _ _ _ ih =>
      have hraw := hend raw (by simp)
      have ih := ih fun u hu => hend u (by simp [hu])
      rw [List.cons_append, t.firstsFrom_atLineStart hraw, t.firstsFrom_atLineStart hraw raws,
        List.append_assoc]
      exact congrArg _ ih

theorem follows {t t' : Tracker} {raws out : List Token} (h : t.Run raws out t')
    (hstrict : t.config.dedent = .strict) (hend : ∀ raw ∈ raws, raw.isEnd = false) {columns : List ℕ}
    (hf : Follows t.opened columns) :
    Follows t'.opened (columns ++ (firstsFrom t.atLineStart raws).map Token.column) := by
  induction h generalizing columns with
  | nil => simpa using hf
  | @cons t raw raws e out t' _ he _ ih =>
      have hraw := hend raw (by simp)
      have hrest := ih hstrict (fun u hu => hend u (by simp [hu])) (follows_effect hf hstrict hraw he)
      rw [t.firstsFrom_atLineStart hraw, List.map_append, ← List.append_assoc]
      exact hrest

/-- No line of a run is ragged. -/
theorem not_raggedAt {t t' : Tracker} {raws out : List Token} (h : t.Run raws out t')
    (hstrict : t.config.dedent = .strict) (hend : ∀ raw ∈ raws, raw.isEnd = false) {columns : List ℕ}
    (hf : Follows t.opened columns) {i : ℕ} (hi : columns.length ≤ i) :
    ¬RaggedAt (columns ++ (firstsFrom t.atLineStart raws).map Token.column) i := by
  induction h generalizing columns with
  | nil =>
      intro hragged
      have := hragged.lt_length
      simp at this
      omega
  | @cons t raw raws e out t' _ he _ ih =>
      have hraw := hend raw (by simp)
      have hrest := ih hstrict (fun u hu => hend u (by simp [hu])) (follows_effect hf hstrict hraw he)
      rw [t.firstsFrom_atLineStart hraw, List.map_append, ← List.append_assoc]
      rcases firstsFrom_singleton hraw he with ⟨hfirsts, -⟩ | ⟨hfirsts, hmeasure⟩
      · exact hrest (by simpa [hfirsts] using hi)
      · rcases hi.lt_or_eq with hi | rfl
        · exact hrest (by simpa [hfirsts] using Nat.succ_le_of_lt hi)
        · rw [hfirsts, List.map_singleton, List.append_assoc, List.singleton_append, raggedAt_length,
            ← hf.innermost, ← hf.mem_iff, ← t.mem_levels]
          rintro ⟨hlt, hclosed⟩
          rcases measure_eq_ok hmeasure with ⟨hright, -⟩ | ⟨-, hlevel, -⟩
          · exact absurd hlt (Nat.not_lt_of_lt hright)
          · exact hclosed (hlevel hstrict)

end Run

end Tracker

/-! ### The earliest ragged line -/

/-- Of the lines with the given first tokens, the one behind `i` others is the first ragged one; it begins with
`first`. The dedent tells its place, and the nearest column below it that was left open. -/
structure EarliestRagged (firsts : List Token) (i : ℕ) (first : Token) (d : RaggedDedent) : Prop where
  isLeast : IsLeast {k | RaggedAt (firsts.map Token.column) k} i
  getElem?_eq : firsts[i]? = some first
  line_eq : d.line = first.line
  column_eq : d.column = first.column
  isGreatest : IsGreatest {c | LeftOpen ((firsts.map Token.column).take i) c ∧ c < first.column} d.nearest

theorem EarliestRagged.unique {firsts : List Token} {i j : ℕ} {first first' : Token} {d d' : RaggedDedent}
    (h : EarliestRagged firsts i first d) (h' : EarliestRagged firsts j first' d') : d = d' := by
  obtain rfl := h.isLeast.unique h'.isLeast
  obtain rfl := Option.some.inj (h.getElem?_eq.symm.trans h'.getElem?_eq)
  have hnearest := h.isGreatest.unique h'.isGreatest
  obtain ⟨line, column, nearest⟩ := d
  obtain ⟨line', column', nearest'⟩ := d'
  obtain rfl : line = line' := h.line_eq.trans h'.line_eq.symm
  obtain rfl : column = column' := h.column_eq.trans h'.column_eq.symm
  exact congrArg (RaggedDedent.mk line column) hnearest

/-- The line at which a run is refused is the earliest ragged one. -/
theorem Tracker.Run.earliestRagged {config : TrackerConfig} (hstrict : config.dedent = .strict)
    {before later out : List Token} {t : Tracker} {raw : Token} {d : RaggedDedent}
    (h : (Tracker.start config).Run before out t) (hend : ∀ u ∈ before, u.isEnd = false)
    (hd : t.effect raw = .error d) :
    EarliestRagged (lineFirsts (before ++ raw :: later)) (lineFirsts before).length raw d := by
  obtain ⟨hb, he, hstart, hmeasure⟩ := effect_eq_error hd
  obtain ⟨hlt, -, hlevel, rfl⟩ := measure_eq_error hmeasure
  have hf : Follows t.opened ((lineFirsts before).map Token.column) := h.follows hstrict hend .nil
  have hfirsts : lineFirsts (before ++ raw :: later) = lineFirsts before ++ raw :: firstsFrom false later := by
    have happend : lineFirsts (before ++ raw :: later) =
        lineFirsts before ++ firstsFrom t.atLineStart (raw :: later) := h.firstsFrom_append hend _
    simpa [hstart, firstsFrom_cons true, hb] using happend
  have hlength : (lineFirsts before).length = ((lineFirsts before).map Token.column).length := by simp
  have hcolumn : raw.column ≠ 0 := by
    rintro hzero
    exact hlevel ((t.mem_levels _).mpr (Or.inl hzero))
  refine ⟨⟨?_, fun k hk => ?_⟩, by simp [hfirsts], rfl, rfl, ?_⟩
  · rw [Set.mem_ofPred_eq, hfirsts, List.map_append, List.map_cons, hlength, raggedAt_length,
      ← hf.innermost, ← hf.mem_iff, ← t.mem_levels]
    exact ⟨hlt, hlevel⟩
  · by_contra hlt
    have hlt := Nat.lt_of_not_le hlt
    rw [Set.mem_ofPred_eq, hfirsts, List.map_append, raggedAt_append_of_lt _ (by simpa using hlt)] at hk
    have hstart : Follows (Tracker.start config).opened [] := .nil
    exact h.not_raggedAt hstrict hend hstart (Nat.zero_le k) hk
  · have hgreatest := t.isGreatest_nearest hf.nested (Nat.pos_of_ne_zero hcolumn)
    rw [hfirsts, List.map_append, hlength, List.take_left]
    simpa only [← hf.mem_iff, ← t.mem_levels] using hgreatest

/-- Under the strict policy a reading is refused at the earliest ragged line; if it is not, there is none. -/
theorem Tracked.Reading.regular_or_refused {config : TrackerConfig} (hstrict : config.dedent = .strict)
    {raws out : List Token} {r q : Reply ε} (h : Reading (Tracker.start config) raws r out q)
    (hend : ∀ u ∈ raws, u.isEnd = false) :
    (q = r ∧ ∀ i, ¬RaggedAt ((lineFirsts raws).map Token.column) i) ∨
      ∃ before first later d t, raws = before ++ first :: later ∧
        EarliestRagged (lineFirsts raws) (lineFirsts before).length first d ∧
        (Tracker.start config).Run before out t ∧ t.effect first = .error d ∧
        q = .error (.raggedDedent d) := by
  cases h with
  | @ended raws final out t hrun =>
      obtain ⟨_, _, t', -, hraws, -⟩ := hrun.split
      exact Or.inl ⟨rfl, fun i => hraws.not_raggedAt hstrict hend .nil (Nat.zero_le i)⟩
  | failed hrun =>
      exact Or.inl ⟨rfl, fun i => hrun.not_raggedAt hstrict hend .nil (Nat.zero_le i)⟩
  | @refused before first later r out t d hrun hd =>
      have hbefore : ∀ u ∈ before, u.isEnd = false := fun u hu => hend u (by simp [hu])
      exact Or.inr ⟨before, first, later, d, t, rfl, hrun.earliestRagged hstrict hbefore hd, hrun, hd, rfl⟩

end LayoutRule
