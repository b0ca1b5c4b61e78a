import LayoutRule.Proofs.Tracker.Origin
import LayoutRule.Sample
import LayoutRule.Source.Replay

/-! # Balance of the markers

A marker is counted when it is handed out, while the levels change as soon as its line is measured. The
closing markers that still wait make up the difference. -/

namespace LayoutRule

open TokenSource

universe u

variable {σ : Type u} {ε : Type} [Source σ ε]

namespace Tracked

/-- The markers of the tracker's own making among the next `n` answers. -/
def made : ℕ → Tracked σ → List Token
  | 0, _ => []
  | n + 1, s => s.origin.markers s.pull.1 ++ made n s.pull.2

/-- The items of the source among the next `n` answers. -/
def items : ℕ → Tracked σ → List (Reply ε)
  | 0, _ => []
  | n + 1, s => s.origin.items s.pull.1 ++ items n s.pull.2

/-- How many blocks the tracker has opened itself within the next `n` answers. -/
def opens (n : ℕ) (s : Tracked σ) : ℕ := (made n s).countP (·.kind = .blockOpen)

/-- How many blocks the tracker has closed itself within the next `n` answers. -/
def dedents (n : ℕ) (s : Tracked σ) : ℕ := (made n s).countP (·.kind = .blockDedent)

/-! ### Items -/

/-- The raw token that waits behind its markers. -/
def waiting (s : Tracked σ) : List (Reply ε) :=
  (s.tracker.pending.getLast?.map .ok).toList

theorem items_of_failed {s : Tracked σ} {d : RaggedDedent} (h : s.tracker.status = .failed d) (n : ℕ) :
    items n s = [] := by
  induction n with
  | zero => rfl
  | succ n ih =>
      have horigin : s.origin = .refusal := by simp [origin, h]
      simp [items, horigin, pull_of_failed h, Origin.items, ih]

private theorem Pulls.items_prefix {s s' : Tracked σ} {o : Origin} {r : Reply ε} (h : Pulls s o r s')
    {n k : ℕ} (hn : items n s' <+: waiting s' ++ replies k s'.source) :
    ∃ k, o.items r ++ items n s' <+: waiting s ++ replies k s.source := by
  cases h with
  | refusedBefore => exact ⟨k, hn⟩
  | endedBefore => exact ⟨k, hn⟩
  | closesMore j hs hp => exact ⟨k, by simpa [Origin.items, waiting, hp] using hn⟩
  | delivers hs hp => exact ⟨k, by simpa [Origin.items, waiting, hp] using hn⟩
  | fails hi hpull =>
      exact ⟨k + 1, by simpa [Origin.items, waiting, hi.pending, replies, hpull] using hn⟩
  | @refuses t source raw source' d =>
      refine ⟨0, ?_⟩
      rw [items_of_failed (d := d) rfl]
      exact List.nil_prefix
  | opens hi hpull =>
      exact ⟨k + 1, by
        simpa [Origin.items, waiting, hi.pending, replies, hpull, Tracker.waiting] using hn⟩
  | closes j closed hi hpull =>
      exact ⟨k + 1, by
        simpa [Origin.items, waiting, hi.pending, replies, hpull, Tracker.waiting] using hn⟩
  | passes hi hpull =>
      exact ⟨k + 1, by
        simpa [Origin.items, waiting, hi.pending, replies, hpull, Tracker.settle] using hn⟩

/-- What is not of the tracker's making is what the source hands out, in order and with nothing left out. -/
theorem items_prefix_replies {s : Tracked σ} (h : s.tracker.Steady) (n : ℕ) :
    ∃ k, items n s <+: waiting s ++ replies k s.source := by
  induction n generalizing s with
  | zero => exact ⟨0, List.nil_prefix⟩
  | succ n ih =>
      have hpulls := pulls_pull h
      obtain ⟨k, hk⟩ := ih (hpulls.steady h)
      exact hpulls.items_prefix hk

/-- Behind a tracker with nothing waiting the items handed out are the first ones of the source. -/
theorem items_eq_replies {s : Tracked σ} (h : s.tracker.Steady) (hp : s.tracker.pending = []) (n : ℕ) :
    items n s = replies (items n s).length s.source := by
  obtain ⟨k, hk⟩ := items_prefix_replies h n
  rw [waiting, hp, List.getLast?_nil, Option.map_none, Option.toList_none, List.nil_append] at hk
  have hle : (items n s).length ≤ k := by simpa using hk.length_le
  rw [← take_replies hle]
  exact List.prefix_iff_eq_take.mp hk

/-! ### Balance -/

/-- The closing markers that still wait, and the columns still open. -/
def owed (t : Tracker) : ℕ := t.pending.length - 1 + t.opened.length

theorem Pulls.balance {s s' : Tracked σ} {o : Origin} {r : Reply ε} (h : Pulls s o r s') :
    (o.markers r).countP (·.kind = .blockOpen) + owed s.tracker =
      (o.markers r).countP (·.kind = .blockDedent) + owed s'.tracker := by
  cases h with
  | refusedBefore => rfl
  | endedBefore => rfl
  | closesMore k hs hp =>
      simp [Origin.markers, owed, hp, Token.blockDedent]
      omega
  | delivers hs hp => simp [Origin.markers, owed, hp]
  | fails hi hpull => rfl
  | refuses => rfl
  | opens hi hpull =>
      simp [Origin.markers, owed, hi.pending, Tracker.waiting, Token.blockOpen]
      omega
  | closes k closed hi hpull he hk hopened =>
      simp [Origin.markers, owed, hi.pending, Tracker.waiting, Token.blockDedent, hopened, hk]
      omega
  | passes hi hpull he hm hopened =>
      simp [Origin.markers, owed, hi.pending, Tracker.settle, hopened]

theorem opens_add_owed {s : Tracked σ} (h : s.tracker.Steady) (n : ℕ) :
    opens n s + owed s.tracker = dedents n s + owed (after n s).tracker := by
  induction n generalizing s with
  | zero => rfl
  | succ n ih =>
      have hpulls := pulls_pull h
      have hstep := hpulls.balance
      have hrest := ih (hpulls.steady h)
      have hafter : after (n + 1) s = after n s.pull.2 := rfl
      simp only [opens, dedents, made, List.countP_append, hafter] at hrest ⊢
      omega

/-! ### Levels and counts along a run -/

/-- However many answers are taken, the items of the source are handed on in order and without a gap, the
levels rise from 0 and end in the innermost, and never more blocks are closed than opened. Behind an answer
other than a marker, as many more are opened as there are levels above the bottom. Once an end token has
been handed out the counts agree. -/
theorem levels_and_counts (config : TrackerConfig) (source : σ) (n : ℕ) :
    let s := Tracked.start config source
    let levels := (after n s).tracker.levels
    (∃ k, items n s <+: replies k source) ∧
      (levels.Pairwise (· < ·) ∧ levels.head? = some 0 ∧
        levels.getLast? = some (after n s).tracker.top) ∧
      dedents n s ≤ opens n s ∧
      ((after n s).origin ≠ .marker →
        opens (n + 1) s = dedents (n + 1) s + ((after (n + 1) s).tracker.levels.length - 1)) ∧
      ((∃ t, Except.ok t ∈ replies n s ∧ t.isEnd = true) → opens n s = dedents n s) := by
  intro s levels
  have hstart : s.tracker.Steady := Tracker.steady_start config
  have hsteady := steady_after hstart
  have hbalance (m : ℕ) : opens m s = dedents m s + owed (after m s).tracker := by
    simpa [owed, s, Tracked.start, Tracker.start] using opens_add_owed hstart m
  refine ⟨?_, ⟨?_, rfl, ?_⟩, ?_, ?_, ?_⟩
  · simpa [waiting, s, Tracked.start, Tracker.start] using items_prefix_replies hstart n
  · exact ((after n s).tracker.pairwise_levels_iff).mpr (hsteady n).nested
  · exact (after n s).tracker.getLast?_levels
  · rw [hbalance n]
    exact Nat.le_add_right _ _
  · intro horigin
    have hlast : after (n + 1) s = (after n s).pull.2 := after_add n 1 s
    have hpending := (pulls_pull (hsteady n)).pending_eq_nil (hsteady n) horigin
    rw [hbalance (n + 1), owed, hlast, hpending, Tracker.length_levels]
    simp
  · intro hend
    obtain ⟨hopened, hpending⟩ := (hsteady n).nothing_left (exhausted_after hstart (Or.inr hend))
    simp [hbalance n, owed, hopened, hpending]

/-- A ragged dedent closes one of two blocks, and the end closes the other. -/
theorem levels_and_counts_ragged :
    let s := Tracked.start .lenient (Replay.ofTokens (Sample.linesAt [0, 4, 8, 6]))
    (after 10 s).origin ≠ .marker ∧ opens 11 s = dedents 11 s + 1 ∧
      (after 11 s).tracker.levels = [0, 4] ∧ opens 14 s = dedents 14 s := by
  intro s
  have hitem : (after 10 s).origin ≠ .marker := by decide +kernel
  have hlevels : (after 11 s).tracker.levels = [0, 4] := by decide +kernel
  have hend : ∃ t, Except.ok t ∈ replies 14 s ∧ t.isEnd = true :=
    ⟨Token.endOfInput 5 0 30, by decide +kernel, rfl⟩
  obtain ⟨-, -, -, hcounts, -⟩ :=
    levels_and_counts .lenient (Replay.ofTokens (Sample.linesAt [0, 4, 8, 6])) 10
  obtain ⟨-, -, -, -, hall⟩ :=
    levels_and_counts .lenient (Replay.ofTokens (Sample.linesAt [0, 4, 8, 6])) 14
  have hcounts := hcounts hitem
  rw [hlevels] at hcounts
  exact ⟨hitem, hcounts, hlevels, hall hend⟩

end Tracked

end LayoutRule
