import LayoutRule.Tracker.Basic
import Mathlib.Data.List.TakeWhile
import Mathlib.Data.Nat.Basic
import Mathlib.Order.Basic

/-! # Effects of raw tokens

A raw token opens at most one column or closes the innermost of the open ones. The open columns stay
nested: from the innermost out, each lies left of the one before it and right of column 0. -/

namespace LayoutRule

/-! ### Nested columns -/

/-- Open columns, innermost first, as a tracker can have them. -/
structure Nested (opened : List ℕ) : Prop where
  decreasing : opened.Pairwise (· > ·)
  positive : ∀ c ∈ opened, 0 < c

namespace Nested

theorem nil : Nested [] := ⟨.nil, by simp⟩

theorem le_headD {opened : List ℕ} (h : Nested opened) {c : ℕ} (hc : c ∈ opened) :
    c ≤ opened.headD 0 := by
  cases opened with
  | nil => simp at hc
  | cons d opened =>
      rcases List.mem_cons.mp hc with rfl | hc
      · exact le_rfl
      · exact (List.rel_of_pairwise_cons h.decreasing hc).le

theorem of_append_right {closed opened : List ℕ} (h : Nested (closed ++ opened)) : Nested opened :=
  ⟨(List.pairwise_append.mp h.decreasing).2.1, fun c hc => h.positive c (by simp [hc])⟩

theorem cons {opened : List ℕ} (h : Nested opened) {c : ℕ} (hc : opened.headD 0 < c) :
    Nested (c :: opened) := by
  refine ⟨List.pairwise_cons.mpr ⟨?_, h.decreasing⟩, ?_⟩
  · intro d hd
    exact (h.le_headD hd).trans_lt hc
  · intro d hd
    rcases List.mem_cons.mp hd with rfl | hd
    · omega
    · exact h.positive d hd

/-- The columns right of a given one are the innermost, so closing stops where searching would. -/
theorem takeWhile_eq_filter {opened : List ℕ} (h : Nested opened) (c : ℕ) :
    opened.takeWhile (c < ·) = opened.filter (c < ·) := by
  have hd := h.decreasing
  clear h
  induction opened with
  | nil => rfl
  | cons d opened ih =>
      by_cases hc : c < d
      · simp [hc, ih hd.tail]
      · have hnone : opened.filter (c < ·) = [] := by
          apply List.filter_eq_nil_iff.mpr
          intro a ha
          have := List.rel_of_pairwise_cons hd ha
          simp only [decide_eq_true_eq]
          omega
        simp [hc, hnone]

theorem dropWhile_eq_filter {opened : List ℕ} (h : Nested opened) (c : ℕ) :
    opened.dropWhile (c < ·) = opened.filter (· ≤ c) := by
  have hd := h.decreasing
  clear h
  induction opened with
  | nil => rfl
  | cons d opened ih =>
      by_cases hc : c < d
      · have hle : ¬ d ≤ c := by omega
        simp [hc, hle, ih hd.tail]
      · have hall : opened.filter (· ≤ c) = opened := by
          apply List.filter_eq_self.mpr
          intro a ha
          have := List.rel_of_pairwise_cons hd ha
          simp only [decide_eq_true_eq]
          omega
        have hle : d ≤ c := by omega
        simp [hc, hle, hall]

end Nested

namespace Tracker

theorem pairwise_levels_iff (t : Tracker) : t.levels.Pairwise (· < ·) ↔ Nested t.opened := by
  simp only [levels, List.pairwise_cons, List.mem_reverse, List.pairwise_reverse]
  exact ⟨fun h => ⟨h.2, h.1⟩, fun h => ⟨h.positive, h.decreasing⟩⟩

theorem mem_levels (t : Tracker) (c : ℕ) : c ∈ t.levels ↔ c = 0 ∨ c ∈ t.opened := by
  simp [levels]

theorem length_levels (t : Tracker) : t.levels.length = t.opened.length + 1 := by
  simp [levels]

/-- The innermost level is the last. -/
theorem getLast?_levels (t : Tracker) : t.levels.getLast? = some t.top := by
  cases h : t.opened with
  | nil => simp [levels, top, h]
  | cons c opened =>
      simp only [levels, top, h, List.reverse_cons, List.headD_cons]
      rw [← List.cons_append, List.getLast?_concat]

/-! ### Effects -/

theorem effect_of_lineBreak (t : Tracker) {raw : Token} (h : raw.kind = .lineBreak) :
    t.effect raw = .ok ⟨[], t.opened⟩ := by
  simp [effect, h]

theorem effect_of_isEnd (t : Tracker) {raw : Token} (h : raw.isEnd = true) :
    t.effect raw = .ok ⟨List.replicate t.opened.length raw.blockDedent, []⟩ := by
  simp [effect, (Token.isEnd_iff raw).mp h, List.map_const']

/-- Tokens other than line breaks and the end are measured at the start of a line and nowhere else. -/
theorem effect_of_content (t : Tracker) {raw : Token} (hb : raw.kind ≠ .lineBreak)
    (he : raw.isEnd = false) :
    t.effect raw = if t.atLineStart then t.measure raw else .ok ⟨[], t.opened⟩ := by
  have hk : raw.kind ≠ .endOfInput := by simpa [Token.isEnd] using he
  unfold effect
  split <;> simp_all

theorem lineStartAfter_of_lineBreak (t : Tracker) {raw : Token} (h : raw.kind = .lineBreak) :
    t.lineStartAfter raw = true := by
  simp [lineStartAfter, h]

theorem lineStartAfter_of_content (t : Tracker) {raw : Token} (hb : raw.kind ≠ .lineBreak)
    (he : raw.isEnd = false) : t.lineStartAfter raw = false := by
  have hk : raw.kind ≠ .endOfInput := by simpa [Token.isEnd] using he
  unfold lineStartAfter
  split <;> simp_all

/-- Measuring opens the column of a token right of the innermost level. Otherwise it closes the columns
right of the token, and under the strict policy the token stands on a level. -/
theorem measure_eq_ok {t : Tracker} {raw : Token} {e : Effect} (h : t.measure raw = .ok e) :
    t.top < raw.column ∧ e = ⟨[raw.blockOpen], raw.column :: t.opened⟩ ∨
      raw.column ≤ t.top ∧ (t.config.dedent = .strict → raw.column ∈ t.levels) ∧
        e = ⟨List.replicate (t.opened.takeWhile (raw.column < ·)).length raw.blockDedent,
          t.opened.dropWhile (raw.column < ·)⟩ := by
  unfold measure at h
  split at h
  · rename_i hc
    exact Or.inl ⟨hc, (Except.ok.inj h).symm⟩
  · rename_i hc
    split at h
    · cases h
    · rename_i hs
      refine Or.inr ⟨Nat.le_of_not_lt hc, ?_, ?_⟩
      · intro hstrict
        by_contra hmem
        exact hs ⟨hstrict, hmem⟩
      · rw [← Except.ok.inj h, List.map_const']

/-- Measuring refuses a token left of the innermost level that stands on no level, and it does so only under
the strict policy. -/
theorem measure_eq_error {t : Tracker} {raw : Token} {d : RaggedDedent} (h : t.measure raw = .error d) :
    raw.column < t.top ∧ t.config.dedent = .strict ∧ raw.column ∉ t.levels ∧
      d = ⟨raw.line, raw.column, t.nearest raw.column⟩ := by
  unfold measure at h
  split at h
  · cases h
  · rename_i hc
    split at h
    · rename_i hs
      have htop : t.top ∈ t.levels := List.mem_of_getLast? t.getLast?_levels
      have hne : raw.column ≠ t.top := fun heq => hs.2 (heq ▸ htop)
      exact ⟨Nat.lt_of_le_of_ne (Nat.le_of_not_lt hc) hne, hs.1, hs.2, (Except.error.inj h).symm⟩
    · cases h

/-- A token stands left of the innermost level, and on none. Such a line is a ragged dedent. -/
def Ragged (t : Tracker) (raw : Token) : Prop :=
  raw.column < t.top ∧ raw.column ∉ t.levels

instance (t : Tracker) (raw : Token) : Decidable (t.Ragged raw) :=
  inferInstanceAs (Decidable (_ ∧ _))

/-- Ragged dedents, and nothing else, are what the strict policy refuses. -/
theorem measure_refuses_iff (t : Tracker) (raw : Token) :
    (∃ d, t.measure raw = .error d) ↔ t.config.dedent = .strict ∧ t.Ragged raw := by
  constructor
  · rintro ⟨d, hd⟩
    obtain ⟨hleft, hstrict, hlevel, -⟩ := measure_eq_error hd
    exact ⟨hstrict, hleft, hlevel⟩
  · rintro ⟨hstrict, hleft, hlevel⟩
    exact ⟨_, by rw [measure, if_neg hleft.not_gt, if_pos ⟨hstrict, hlevel⟩]⟩

/-- A measured line stands on a level of its own unless it is a ragged dedent. -/
theorem mem_levels_of_measure_iff {t u : Tracker} (hn : Nested t.opened) {raw : Token} {e : Effect}
    (h : t.measure raw = .ok e) (hu : u.opened = e.opened) : raw.column ∈ u.levels ↔ ¬t.Ragged raw := by
  rw [mem_levels, hu]
  rcases measure_eq_ok h with ⟨hright, rfl⟩ | ⟨hleft, -, rfl⟩
  · exact iff_of_true (.inr List.mem_cons_self) fun hragged => absurd hragged.1 hright.not_gt
  · have htop : t.top ∈ t.levels := List.mem_of_getLast? t.getLast?_levels
    -- Closing keeps the level that the line stands on, if there is one.
    have hkept : (raw.column = 0 ∨ raw.column ∈ t.opened.dropWhile (raw.column < ·)) ↔ raw.column ∈ t.levels := by
      simp [hn.dropWhile_eq_filter, mem_levels]
    rw [hkept]
    constructor
    · exact fun hlevel hragged => hragged.2 hlevel
    · intro hregular
      by_contra hlevel
      have hne : raw.column ≠ t.top := fun heq => hlevel (heq ▸ htop)
      exact hregular ⟨Nat.lt_of_le_of_ne hleft hne, hlevel⟩

/-- Only the first token of a line can be refused. -/
theorem effect_eq_error {t : Tracker} {raw : Token} {d : RaggedDedent} (h : t.effect raw = .error d) :
    raw.kind ≠ .lineBreak ∧ raw.isEnd = false ∧ t.atLineStart = true ∧ t.measure raw = .error d := by
  have hb : raw.kind ≠ .lineBreak := by
    intro hb
    rw [t.effect_of_lineBreak hb] at h
    cases h
  have he : raw.isEnd = false := by
    cases he : raw.isEnd with
    | false => rfl
    | true =>
        rw [t.effect_of_isEnd he] at h
        cases h
  rw [t.effect_of_content hb he] at h
  split at h
  · exact ⟨hb, he, ‹_›, h⟩
  · cases h

/-- Everything an effect can be. -/
theorem effect_eq_ok {t : Tracker} {raw : Token} {e : Effect} (h : t.effect raw = .ok e) :
    t.top < raw.column ∧ e = ⟨[raw.blockOpen], raw.column :: t.opened⟩ ∨
      ∃ closed, t.opened = closed ++ e.opened ∧
        e.markers = List.replicate closed.length raw.blockDedent := by
  have hnothing : ∀ e : Effect, e = ⟨[], t.opened⟩ → ∃ closed, t.opened = closed ++ e.opened ∧
      e.markers = List.replicate closed.length raw.blockDedent := by
    rintro e rfl
    exact ⟨[], rfl, rfl⟩
  by_cases hb : raw.kind = .lineBreak
  · rw [t.effect_of_lineBreak hb] at h
    exact Or.inr (hnothing e (Except.ok.inj h).symm)
  · cases he : raw.isEnd with
    | true =>
        rw [t.effect_of_isEnd he] at h
        obtain rfl := Except.ok.inj h
        exact Or.inr ⟨t.opened, by simp, rfl⟩
    | false =>
        rw [t.effect_of_content hb he] at h
        split at h
        · rcases measure_eq_ok h with hopen | ⟨-, -, rfl⟩
          · exact Or.inl hopen
          · exact Or.inr ⟨_, (List.takeWhile_append_dropWhile).symm, rfl⟩
        · exact Or.inr (hnothing e (Except.ok.inj h).symm)

/-- Markers copy the place of the raw token. -/
theorem mem_markers {t : Tracker} {raw : Token} {e : Effect} (h : t.effect raw = .ok e) {m : Token}
    (hm : m ∈ e.markers) : m = raw.blockOpen ∨ m = raw.blockDedent := by
  rcases effect_eq_ok h with ⟨-, rfl⟩ | ⟨closed, -, hmarkers⟩
  · exact Or.inl (List.mem_singleton.mp hm)
  · rw [hmarkers] at hm
    exact Or.inr (List.eq_of_mem_replicate hm)

theorem isEnd_of_mem_markers {t : Tracker} {raw : Token} {e : Effect} (h : t.effect raw = .ok e) :
    ∀ m ∈ e.markers, m.isEnd = false := by
  intro m hm
  rcases mem_markers h hm with rfl | rfl <;> rfl

theorem isSynthetic_of_mem_markers {t : Tracker} {raw : Token} {e : Effect} (h : t.effect raw = .ok e) :
    ∀ m ∈ e.markers, m.kind.isSynthetic = true := by
  intro m hm
  rcases mem_markers h hm with rfl | rfl <;> rfl

/-- The end token leaves nothing open. -/
theorem opened_of_isEnd {t : Tracker} {raw : Token} {e : Effect} (h : t.effect raw = .ok e)
    (he : raw.isEnd = true) : e.opened = [] := by
  rw [t.effect_of_isEnd he] at h
  rw [← Except.ok.inj h]

theorem nested_effect {t : Tracker} {raw : Token} {e : Effect} (hn : Nested t.opened)
    (h : t.effect raw = .ok e) : Nested e.opened := by
  rcases effect_eq_ok h with ⟨hc, rfl⟩ | ⟨closed, hopened, -⟩
  · exact hn.cons hc
  · exact (hopened ▸ hn).of_append_right

end Tracker

end LayoutRule
