import LayoutRule.Proofs.Tracker.Origin

/-! # Demand on the source

A tracker goes on to its source only when nothing waits and nothing has gone wrong. Once it has pulled the end
token it leaves the source alone, and no column is open any more. -/

namespace LayoutRule

open TokenSource

universe u

variable {σ : Type u} {ε : Type} [Source σ ε]

namespace Tracked

/-- How many of the next `n` pulls go on to the source. -/
def pulled : ℕ → Tracked σ → ℕ
  | 0, _ => 0
  | n + 1, s => (if (s.tracker.ready? ε).isNone then 1 else 0) + pulled n s.pull.2

theorem source_pull (s : Tracked σ) :
    s.pull.2.source = after (if (s.tracker.ready? ε).isNone then 1 else 0) s.source := by
  cases hready : s.tracker.ready? ε with
  | some p => simp [pull, hready, after]
  | none =>
      cases hpull : TokenSource.pull s.source with
      | mk r source => cases r <;> simp [pull, hready, hpull, after]

/-- The source is pulled that often, and not otherwise changed. -/
theorem source_after (n : ℕ) (s : Tracked σ) : (after n s).source = after (pulled n s) s.source := by
  induction n generalizing s with
  | zero => rfl
  | succ n ih =>
      have hnext : after (n + 1) s = after n s.pull.2 := rfl
      rw [hnext, ih, source_pull, pulled, after_add]

theorem pulled_of_idle {s : Tracked σ} (h : s.tracker.Idle) (n : ℕ) :
    pulled (n + 1) s = 1 + pulled n s.pull.2 := by
  simp [pulled, h.ready?]

theorem pulled_of_pending {s : Tracked σ} {p : Token} {ps : List Token} (hp : s.tracker.pending = p :: ps)
    (n : ℕ) : pulled (n + 1) s = pulled n s.pull.2 := by
  have hready : (s.tracker.ready? ε).isNone = false := by
    cases hs : s.tracker.status <;> simp [Tracker.ready?, hs, hp]
  simp [pulled, hready]

/-! ### Taking a raw token -/

/-- A raw token that is not refused changes the open columns at once, and then waits behind its markers. -/
theorem pull_of_effect {s : Tracked σ} {raw : Token} {e : Effect} {source : σ} (hi : s.tracker.Idle)
    (hpull : TokenSource.pull s.source = (.ok raw, source)) (he : s.tracker.effect raw = .ok e) :
    ∃ later status, s.pull.2 =
        ⟨⟨s.tracker.config, e.opened, later, s.tracker.lineStartAfter raw, status⟩, source⟩ ∧
      if raw.isEnd then (∃ u ∈ later, u.isEnd = true) ∨ status = .ended raw
      else status = .running ∧ ∀ u ∈ later, u.isEnd = false := by
  cases hm : e.markers with
  | nil =>
      refine ⟨[], if raw.isEnd then .ended raw else s.tracker.status, ?_, ?_⟩
      · rw [pull_of_effect_nil hi hpull he hm]
        rfl
      · cases raw.isEnd <;> simp [hi.running]
  | cons m ms =>
      refine ⟨ms ++ [raw], s.tracker.status, ?_, ?_⟩
      · rw [pull_of_effect_cons hi hpull he hm]
        rfl
      · have hms : ∀ u ∈ ms, u.isEnd = false := fun u hu =>
          Tracker.isEnd_of_mem_markers he u (by simp [hm, hu])
        cases hend : raw.isEnd with
        | true => simpa using Or.inl (Or.inr hend)
        | false => simpa [or_imp, forall_and, hend, hi.running] using hms

/-! ### Behind the end token -/

/-- The end token waits, or it has been handed out. -/
def SeenEnd (t : Tracker) : Prop := (∃ u ∈ t.pending, u.isEnd = true) ∨ t.isExhausted = true

theorem SeenEnd.opened_eq_nil {t : Tracker} (h : SeenEnd t) (hs : t.Steady) : t.opened = [] := by
  rcases h with ⟨u, hu, hend⟩ | he
  · rcases hs.queue with hp | ⟨-, k, raw, hp, hopened⟩
    · simp [hp] at hu
    · rw [hp] at hu
      rcases List.mem_append.mp hu with hu | hu
      · rw [List.eq_of_mem_replicate hu] at hend
        cases hend
      · rw [List.mem_singleton.mp hu] at hend
        exact hopened hend
  · exact (hs.nothing_left he).1

theorem not_seenEnd_of_idle {t : Tracker} (h : t.Idle) : ¬SeenEnd t := by
  simp [SeenEnd, h.pending, Tracker.isExhausted, h.running]

theorem Pulls.seenEnd {s s' : Tracked σ} {o : Origin} {r : Reply ε} (h : Pulls s o r s')
    (hend : SeenEnd s.tracker) : SeenEnd s'.tracker := by
  cases h with
  | refusedBefore => exact hend
  | endedBefore => exact hend
  | closesMore k hs hp =>
      simp only [SeenEnd, hp, Tracker.isExhausted, hs] at hend ⊢
      simpa [List.mem_replicate, or_imp, forall_and] using hend
  | @delivers t source raw hs hp =>
      have hraw : raw.isEnd = true := by simpa [SeenEnd, hp, Tracker.isExhausted, hs] using hend
      exact Or.inr (by simp [Tracker.isExhausted, hraw])
  | fails hi => exact absurd hend (not_seenEnd_of_idle hi)
  | refuses hi => exact absurd hend (not_seenEnd_of_idle hi)
  | opens hi => exact absurd hend (not_seenEnd_of_idle hi)
  | closes k closed hi => exact absurd hend (not_seenEnd_of_idle hi)
  | passes hi => exact absurd hend (not_seenEnd_of_idle hi)

theorem opened_after_of_seenEnd {s : Tracked σ} (hs : s.tracker.Steady) (hend : SeenEnd s.tracker) (n : ℕ) :
    (after n s).tracker.opened = [] := by
  induction n generalizing s with
  | zero => exact hend.opened_eq_nil hs
  | succ n ih =>
      have hpulls := pulls_pull hs
      exact ih (s := s.pull.2) (hpulls.steady hs) (hpulls.seenEnd hend)

end Tracked

end LayoutRule
