import LayoutRule.Proofs.Tracker.Run
import LayoutRule.Sample
import LayoutRule.Source.Replay

/-! # The tracker and the batch layout

A batch layout goes over raw tokens once, with a list of open levels and no queue. The lenient tracker
hands out the same tokens one pull at a time. -/

namespace LayoutRule

open TokenSource

/-- What a batch layout keeps: the open levels, outermost first, and whether a line begins. -/
structure Layout where
  levels : List ℕ
  lineStart : Bool
  deriving DecidableEq, Repr

namespace Layout

def start : Layout := ⟨[0], true⟩

/-- The markers before the first token of a line, and the levels behind it. -/
def measure (l : Layout) (raw : Token) : List Token × List ℕ :=
  if l.levels.getLastD 0 < raw.column then ([raw.blockOpen], l.levels ++ [raw.column])
  else ((l.levels.filter (raw.column < ·)).map fun _ => raw.blockDedent,
    l.levels.filter (· ≤ raw.column))

/-- The markers before a raw token, and the levels behind it. -/
def effect (l : Layout) (raw : Token) : List Token × List ℕ :=
  match raw.kind with
  | .lineBreak => ([], l.levels)
  | .endOfInput => (List.replicate (l.levels.length - 1) raw.blockDedent, [0])
  | _ => if l.lineStart then l.measure raw else ([], l.levels)

/-- Each raw token with the markers before it. -/
def pieces (l : Layout) : List Token → List (List Token × Token)
  | [] => []
  | raw :: raws =>
      ((l.effect raw).1, raw) :: pieces ⟨(l.effect raw).2, raw.kind = .lineBreak⟩ raws

/-- The tokens of pieces in order. -/
def spell (ps : List (List Token × Token)) : List Token :=
  ps.flatMap fun p => p.1 ++ [p.2]

theorem map_snd_pieces (l : Layout) (raws : List Token) : (l.pieces raws).map Prod.snd = raws := by
  induction raws generalizing l with
  | nil => rfl
  | cons raw raws ih => simp [pieces, ih]

/-- Tokens other than line breaks and the end are measured at the start of a line and nowhere else. -/
theorem effect_of_content (l : Layout) {raw : Token} (hb : raw.kind ≠ .lineBreak)
    (he : raw.isEnd = false) :
    l.effect raw = if l.lineStart then l.measure raw else ([], l.levels) := by
  have hk : raw.kind ≠ .endOfInput := by simpa [Token.isEnd] using he
  unfold effect
  split <;> simp_all

/-- A marker copies the place of the raw token that it stands before. -/
theorem mem_effect {l : Layout} {raw m : Token} (h : m ∈ (l.effect raw).1) :
    m = raw.blockOpen ∨ m = raw.blockDedent := by
  unfold effect at h
  split at h
  · simp at h
  · exact Or.inr (List.eq_of_mem_replicate h)
  · split at h
    · unfold measure at h
      split at h
      · exact Or.inl (List.mem_singleton.mp h)
      · obtain ⟨-, -, rfl⟩ := List.mem_map.mp h
        exact Or.inr rfl
    · simp at h

theorem mem_pieces {l : Layout} {raws : List Token} {p : List Token × Token}
    (h : p ∈ l.pieces raws) : ∀ m ∈ p.1, m = p.2.blockOpen ∨ m = p.2.blockDedent := by
  induction raws generalizing l with
  | nil => simp [pieces] at h
  | cons raw raws ih =>
      rcases List.mem_cons.mp h with rfl | h
      · exact fun m => mem_effect
      · exact ih h

theorem spell_pieces_cons (l : Layout) (raw : Token) (raws : List Token) :
    spell (l.pieces (raw :: raws)) =
      (l.effect raw).1 ++ raw :: spell (pieces ⟨(l.effect raw).2, raw.kind = .lineBreak⟩ raws) := by
  simp [pieces, spell]

/-- Markers are no end tokens, so the layout ends where the raw tokens do. -/
theorem isEnd_eq_false_of_mem_dropLast (l : Layout) (raws : List Token)
    (hend : ∀ raw ∈ raws.dropLast, raw.isEnd = false) :
    ∀ t ∈ (spell (l.pieces raws)).dropLast, t.isEnd = false := by
  induction raws generalizing l with
  | nil => simp [pieces, spell]
  | cons raw raws ih =>
      have hmarkers : ∀ m ∈ (l.effect raw).1, m.isEnd = false := by
        intro m hm
        rcases mem_effect hm with rfl | rfl <;> rfl
      rw [spell_pieces_cons]
      intro t ht
      cases raws with
      | nil => exact hmarkers t (by simpa [pieces, spell] using ht)
      | cons raw' raws =>
          rw [List.dropLast_append_of_ne_nil (by simp), spell_pieces_cons,
            List.dropLast_cons_of_ne_nil (by simp), ← spell_pieces_cons] at ht
          rcases List.mem_append.mp ht with hm | hm
          · exact hmarkers t hm
          · rcases List.mem_cons.mp hm with rfl | hm
            · exact hend t (by simp)
            · exact ih _ (fun u hu => hend u (by simp [hu])) t hm

end Layout

namespace Tracker

/-- The tracker as a batch layout. -/
def layout (t : Tracker) : Layout := ⟨t.levels, t.atLineStart⟩

theorem getLastD_levels (t : Tracker) : t.levels.getLastD 0 = t.top := by
  rw [List.getLastD_eq_getLast?, t.getLast?_levels]
  rfl

/-- Closing from the innermost level out finds what the batch layout finds among all levels. -/
theorem measure_lenient {t : Tracker} (hc : t.config.dedent = .lenient) (hn : Nested t.opened)
    (raw : Token) :
    ∃ e, t.measure raw = .ok e ∧ t.layout.measure raw = (e.markers, 0 :: e.opened.reverse) := by
  unfold Layout.measure
  by_cases hcolumn : t.top < raw.column
  · refine ⟨⟨[raw.blockOpen], raw.column :: t.opened⟩, ?_, ?_⟩
    · simp [measure, hcolumn]
    · simp only [layout, t.getLastD_levels, hcolumn, ite_true]
      simp [levels]
  · refine ⟨⟨(t.opened.takeWhile (raw.column < ·)).map fun _ => raw.blockDedent,
      t.opened.dropWhile (raw.column < ·)⟩, ?_, ?_⟩
    · simp [measure, hcolumn, hc]
    · rw [hn.takeWhile_eq_filter, hn.dropWhile_eq_filter]
      simp only [layout, t.getLastD_levels, hcolumn, ite_false]
      simp [levels, List.filter_reverse]

/-- A raw token has the same markers in both, and leaves the same levels. -/
theorem effect_lenient {t : Tracker} (hc : t.config.dedent = .lenient) (hn : Nested t.opened)
    (raw : Token) :
    ∃ e, t.effect raw = .ok e ∧ t.layout.effect raw = (e.markers, 0 :: e.opened.reverse) := by
  by_cases hb : raw.kind = .lineBreak
  · exact ⟨_, t.effect_of_lineBreak hb, by simp [Layout.effect, hb, layout, levels]⟩
  · cases he : raw.isEnd with
    | true =>
        have hk := (Token.isEnd_iff raw).mp he
        exact ⟨_, t.effect_of_isEnd he, by simp [Layout.effect, hk, layout, t.length_levels]⟩
    | false =>
        rw [t.effect_of_content hb he, t.layout.effect_of_content hb he]
        by_cases hs : t.atLineStart = true
        · simpa [layout, hs] using measure_lenient hc hn raw
        · simp [layout, hs, levels]

/-- The batch layout of raw tokens is a run of the lenient tracker. -/
theorem run_pieces {t : Tracker} (hc : t.config.dedent = .lenient) (hi : t.Idle)
    (hn : Nested t.opened) (raws : List Token) (hend : ∀ raw ∈ raws.dropLast, raw.isEnd = false) :
    ∃ t', t.Run raws (Layout.spell (t.layout.pieces raws)) t' := by
  induction raws generalizing t with
  | nil => exact ⟨t, .nil⟩
  | cons raw raws ih =>
      obtain ⟨e, he, hlayout⟩ := effect_lenient hc hn raw
      rw [Layout.spell_pieces_cons, hlayout]
      cases raws with
      | nil => exact ⟨_, .cons hi he .nil⟩
      | cons raw' raws =>
          have hraw : raw.isEnd = false := hend raw (by simp)
          have hnext : (t.settle raw e).layout = ⟨0 :: e.opened.reverse, raw.kind = .lineBreak⟩ := by
            by_cases hb : raw.kind = .lineBreak
            · simp [layout, settle, levels, hb, t.lineStartAfter_of_lineBreak hb]
            · simp [layout, settle, levels, hb, t.lineStartAfter_of_content hb hraw]
          obtain ⟨t', hrun⟩ := ih (t := t.settle raw e) hc (hi.settle hraw e) (nested_effect hn he)
            fun u hu => hend u (by simp [hu])
          exact ⟨t', .cons hi he (hnext ▸ hrun)⟩

end Tracker

/-! ### Refinement of the batch layout -/

/-- Over a source whose first replies are raw tokens, none but the last an end token, the replies of the
lenient tracker are the tokens of the batch layout, however many are taken of them: the raw tokens in their
order, each behind its markers, which have its line and span. -/
theorem replies_eq_spell_pieces {σ : Type*} {ε : Type} [Source σ ε] (config : TrackerConfig)
    (hc : config.dedent = .lenient) (source : σ) (raws : List Token)
    (hraws : replies raws.length source = raws.map .ok)
    (hend : ∀ raw ∈ raws.dropLast, raw.isEnd = false) :
    (∀ n ≤ (Layout.spell (Layout.start.pieces raws)).length,
        replies n (Tracked.start config source) =
          ((Layout.spell (Layout.start.pieces raws)).take n).map .ok) ∧
      (∀ t ∈ (Layout.spell (Layout.start.pieces raws)).dropLast, t.isEnd = false) ∧
      (Layout.start.pieces raws).map Prod.snd = raws ∧
      ∀ p ∈ Layout.start.pieces raws, ∀ m ∈ p.1, m = p.2.blockOpen ∨ m = p.2.blockDedent := by
  obtain ⟨t', hrun⟩ := Tracker.run_pieces (t := Tracker.start config) hc
    (Tracker.idle_start config) .nil raws hend
  refine ⟨?_, Layout.isEnd_eq_false_of_mem_dropLast _ raws hend, Layout.map_snd_pieces _ raws,
    fun p hp => Layout.mem_pieces hp⟩
  intro n hn
  have hall := (Tracked.replies_run hrun hraws).1
  rw [← take_replies hn, List.map_take]
  exact congrArg (List.take n) hall

/-- A first line right of column 0, a ragged dedent, and a source that fails behind its end token. -/
theorem replies_eq_spell_pieces_ragged :
    let raws := Sample.linesAt [2, 6, 4]
    (Layout.spell (Layout.start.pieces raws)).map Token.kind =
        [.blockOpen, .name, .lineBreak, .blockOpen, .name, .lineBreak, .blockDedent, .name, .lineBreak,
          .blockDedent, .endOfInput] ∧
      replies 11 (Tracked.start .lenient (Script.mk (raws.map .ok) (.error .useAfterEnd : Reply))) =
        (Layout.spell (Layout.start.pieces raws)).map .ok := by
  intro raws
  obtain ⟨hreplies, -⟩ := replies_eq_spell_pieces .lenient rfl
    (Script.mk (raws.map .ok) (.error .useAfterEnd : Reply)) raws (by decide +kernel) (by decide +kernel)
  have hlength : (Layout.spell (Layout.start.pieces raws)).length = 11 := by decide +kernel
  refine ⟨by decide +kernel, ?_⟩
  rw [hreplies 11 hlength.ge, List.take_of_length_le hlength.le]

end LayoutRule
