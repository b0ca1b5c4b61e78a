import LayoutRule.Proofs.Tracker.Rounds
import LayoutRule.Sample
import LayoutRule.Source.Replay

/-! # Laziness

A tracker asks its source for one item at a time, and only when it has handed out all that it took before. It
holds one item at most: the raw token that waits behind its markers, or the one that it has refused. -/

namespace LayoutRule

open TokenSource

universe u

variable {σ : Type u} {ε : Type} [Source σ ε]

/-- How many items a tracker has taken from its source and not handed out. -/
def Tracker.held (t : Tracker) : ℕ :=
  match t.status with
  | .failed _ => 1
  | _ => if t.pending.isEmpty then 0 else 1

theorem Tracker.Idle.held {t : Tracker} (h : t.Idle) : t.held = 0 := by
  simp [Tracker.held, h.running, h.pending]

namespace Tracked

/-! ### Items taken and handed out -/

/-- What a pull takes from the source it hands out or holds. -/
theorem Pulls.asks_add_held {s s' : Tracked σ} {o : Origin} {r : Reply ε} (h : Pulls s o r s') :
    s.tracker.asks + s.tracker.held = (o.items r).length + s'.tracker.held := by
  cases h with
  | refusedBefore hs => simp [Tracker.asks, Tracker.ready?, hs, Origin.items]
  | @endedBefore s final hs hp =>
      cases ha : s.tracker.config.afterEnd <;> simp [Tracker.asks, Tracker.ready?, hs, hp, ha, Origin.items]
  | closesMore k hs hp => simp [Tracker.asks, Tracker.ready?, Tracker.held, hs, hp, List.replicate_succ, Origin.items]
  | @delivers t source raw hs hp =>
      cases raw.isEnd <;> simp [Tracker.asks, Tracker.ready?, Tracker.held, hs, hp, Origin.items]
  | fails hi => simp [hi.asks, hi.held, Origin.items]
  | refuses hi => simp [hi.asks, Tracker.held, hi.running, hi.pending, Origin.items]
  | opens hi => simp [hi.asks, Tracker.held, hi.running, hi.pending, Tracker.waiting, Origin.items]
  | closes k closed hi => simp [hi.asks, Tracker.held, hi.running, hi.pending, Tracker.waiting, Origin.items]
  | @passes t source raw source' e hi =>
      cases he : raw.isEnd <;>
        simp [hi.asks, Tracker.held, hi.running, hi.pending, Tracker.settle, he, Origin.items]

theorem pulled_add_held {s : Tracked σ} (hs : s.tracker.Steady) (n : ℕ) :
    pulled n s + s.tracker.held = (items n s).length + (after n s).tracker.held := by
  induction n generalizing s with
  | zero => rfl
  | succ n ih =>
      have hpulls := pulls_pull hs
      have hstep := hpulls.asks_add_held
      have hrest := ih (hpulls.steady hs)
      have hnext : after (n + 1) s = after n s.pull.2 := rfl
      have hpulled : pulled (n + 1) s = s.tracker.asks + pulled n s.pull.2 := by
        rw [pulled, Tracker.asks_eq ε]
      rw [hpulled, hnext, items, List.length_append]
      omega

/-- From nothing waiting to nothing waiting, what is taken is handed out. -/
theorem items_of_idle {s : Tracked σ} (hs : s.tracker.Steady) (hi : s.tracker.Idle) {n : ℕ}
    (hn : (after n s).tracker.Idle) : items n s = replies (pulled n s) s.source := by
  have hcount := pulled_add_held hs n
  rw [hi.held, hn.held, Nat.add_zero, Nat.add_zero] at hcount
  rw [hcount]
  exact items_eq_replies hs hi.pending n

theorem pulled_add (m n : ℕ) (s : Tracked σ) : pulled (m + n) s = pulled m s + pulled n (after m s) := by
  induction m generalizing s with
  | zero => simp [pulled, after]
  | succ m ih =>
      rw [Nat.succ_add, pulled, pulled, ih, Nat.add_assoc]
      rfl

theorem pulled_succ (n : ℕ) (s : Tracked σ) : pulled (n + 1) s = pulled n s + (after n s).tracker.asks := by
  rw [pulled_add, pulled, pulled, Nat.add_zero, Tracker.asks_eq ε]

/-! ### When an item is held -/

/-- An item is held behind a marker and behind a refusal. -/
theorem Pulls.held_eq {s s' : Tracked σ} {o : Origin} {r : Reply ε} (h : Pulls s o r s') :
    s'.tracker.held = if o = .marker ∨ o = .refusal then 1 else 0 := by
  cases h with
  | refusedBefore hs => simp [Tracker.held, hs]
  | endedBefore hs hp => simp [Tracker.held, hs, hp]
  | closesMore k hs hp => simp [Tracker.held, hs]
  | @delivers t source raw hs hp => cases he : raw.isEnd <;> simp [Tracker.held, hs]
  | fails hi => simp [hi.held]
  | refuses hi => simp [Tracker.held]
  | opens hi => simp [Tracker.held, hi.running, Tracker.waiting]
  | closes k closed hi => simp [Tracker.held, hi.running, Tracker.waiting]
  | @passes t source raw source' e hi => cases he : raw.isEnd <;> simp [Tracker.held, hi.running, Tracker.settle, he]

/-- A refusal lasts. -/
theorem failed_after_iff {s : Tracked σ} (hs : s.tracker.Steady) (n : ℕ) :
    (∃ d, (after n s).tracker.status = .failed d) ↔
      (∃ d, s.tracker.status = .failed d) ∨ ∃ k < n, (after k s).origin = .refusal := by
  induction n with
  | zero => simp [after]
  | succ n ih =>
      have hpulls := pulls_pull (steady_after hs n)
      have hlast : after (n + 1) s = (after n s).pull.2 := after_add n 1 s
      rw [hlast, hpulls.failed_iff]
      constructor
      · exact fun horigin => Or.inr ⟨n, Nat.lt_succ_self n, horigin⟩
      · intro hbefore
        by_cases hn : (after n s).origin = .refusal
        · exact hn
        · have hfailed : ∃ d, (after n s).tracker.status = .failed d := by
            refine ih.mpr (hbefore.imp_right ?_)
            rintro ⟨k, hk, horigin⟩
            have hne : k ≠ n := by
              rintro rfl
              exact hn horigin
            exact ⟨k, by omega, horigin⟩
          obtain ⟨d, hd⟩ := hfailed
          simp [origin, hd]

/-! ### One item at a time -/

/-- Where the last of the next `n` answers comes from. -/
def lastOrigin? (n : ℕ) (s : Tracked σ) : Option Origin :=
  match n with
  | 0 => none
  | k + 1 => some (after k s).origin

theorem held_after (config : TrackerConfig) (source : σ) (n : ℕ) :
    let s := Tracked.start config source
    (after n s).tracker.held =
      if lastOrigin? n s = some .marker ∨ lastOrigin? n s = some .refusal then 1 else 0 := by
  intro s
  cases n with
  | zero => rfl
  | succ n =>
      have hsteady := steady_after (s := s) (Tracker.steady_start config) n
      have hlast : after (n + 1) s = (after n s).pull.2 := after_add n 1 s
      rw [hlast, (pulls_pull hsteady).held_eq]
      simp [lastOrigin?]

/-- Every pull comes to an end, with one answer only. It asks the source once or not at all, and not at all
exactly if something waits, a line has been refused, or the end token has been handed out. The source has been
asked for as many items as have been handed out, and for one more exactly if the last answer was a marker or a
refusal. It is left behind just these items. -/
theorem source_is_asked_on_demand (config : TrackerConfig) (source : σ) (n : ℕ) :
    let s := Tracked.start config source
    let t := after n s
    (∃ asks ≤ 1, (∀ k r t', Rounds t k r t' ↔ k = asks ∧ TokenSource.pull t = (r, t')) ∧
        (asks = 0 ↔ t.tracker.pending ≠ [] ∨ (∃ k < n, (after k s).origin = .refusal) ∨
          ∃ u, .ok u ∈ replies n s ∧ u.isEnd = true) ∧
        pulled (n + 1) s = pulled n s + asks) ∧
      pulled n s = (items n s).length +
        (if lastOrigin? n s = some .marker ∨ lastOrigin? n s = some .refusal then 1 else 0) ∧
      t.source = after (pulled n s) source := by
  intro s t
  have hstart : s.tracker.Steady := Tracker.steady_start config
  refine ⟨⟨t.tracker.asks, t.tracker.asks_le_one, rounds_iff t, ?_, pulled_succ n s⟩, ?_, source_after n s⟩
  · have hfailed := failed_after_iff hstart n
    have hexhausted := isExhausted_after_iff hstart n
    have hrunning : s.tracker.status = .running := rfl
    simp only [hrunning, reduceCtorEq, exists_false, false_or] at hfailed
    simp only [Tracker.isExhausted, hrunning, Bool.false_eq_true, false_or] at hexhausted
    rw [Tracker.asks_eq_zero_iff, Tracker.not_idle_iff, hfailed, ← hexhausted]
    rfl
  · have hcount := pulled_add_held hstart n
    rw [held_after config source n] at hcount
    exact hcount

/-- The first marker of the third line is handed out when the first token of that line has been pulled and still
waits. The refusal of the fourth line holds on to its first token for ever. -/
example :
    let s := Tracked.start .strict (Replay.ofTokens (Sample.linesAt [0, 4, 8, 6]))
    (pulled 6 s, (items 6 s).length) = (5, 4) ∧ (pulled 20 s, (items 20 s).length) = (7, 6) := by
  decide +kernel

end Tracked

end LayoutRule
