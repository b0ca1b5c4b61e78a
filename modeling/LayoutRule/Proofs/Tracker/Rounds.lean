import LayoutRule.Proofs.Tracker.Balance
import LayoutRule.Proofs.Tracker.Demand

/-! # Rounds of a pull

A pull goes round a loop. A round may answer at once, or with what the source hands out; the end token and the
first token of a line are put in the queue behind their markers instead, and the next round answers from there.
So a pull comes to an end, and it asks the source once at most. -/

namespace LayoutRule

open TokenSource

universe u

variable {σ : Type u} {ε : Type} [Source σ ε]

namespace Tracker

/-- Puts a raw token in the queue behind the markers that stand before it. -/
def enqueue (t : Tracker) (raw : Token) (e : Effect) : Tracker :=
  { t with opened := e.opened, pending := t.pending ++ e.markers ++ [raw] }

theorem ready?_eq_none_iff (t : Tracker) : t.ready? ε = none ↔ t.Idle :=
  ⟨idle_of_ready?_eq_none, Idle.ready?⟩

/-- There are three reasons not to ask the source. -/
theorem not_idle_iff (t : Tracker) :
    ¬t.Idle ↔ t.pending ≠ [] ∨ (∃ d, t.status = .failed d) ∨ t.isExhausted = true := by
  constructor
  · intro hbusy
    cases hs : t.status with
    | running => exact Or.inl fun hp => hbusy ⟨hs, hp⟩
    | ended final => exact Or.inr (Or.inr (by simp [isExhausted, hs]))
    | failed d => exact Or.inr (Or.inl ⟨d, rfl⟩)
  · rintro (hp | ⟨d, hs⟩ | he) hi
    · exact hp hi.pending
    · simp [hi.running] at hs
    · simp [isExhausted, hi.running] at he

/-- How often the next pull asks the source, whatever errors that has. -/
def asks (t : Tracker) : ℕ := if (t.ready? Empty).isNone then 1 else 0

theorem asks_eq (ε : Type) (t : Tracker) : t.asks = if (t.ready? ε).isNone then 1 else 0 := by
  have hnone : (t.ready? Empty).isNone = (t.ready? ε).isNone := by
    rw [Bool.eq_iff_iff, Option.isNone_iff_eq_none, Option.isNone_iff_eq_none, ready?_eq_none_iff, ready?_eq_none_iff]
  rw [asks, hnone]

theorem Idle.asks {t : Tracker} (h : t.Idle) : t.asks = 1 := by
  simp [Tracker.asks, h.ready?]

theorem asks_le_one (t : Tracker) : t.asks ≤ 1 := by
  unfold asks
  split <;> omega

theorem asks_eq_zero_iff (t : Tracker) : t.asks = 0 ↔ ¬t.Idle := by
  rw [← t.ready?_eq_none_iff]
  cases hready : t.ready? Empty <;> simp [asks, hready]

/-- Within a line a token leaves no trace. -/
theorem Idle.settle_within_line {t : Tracker} (h : t.Idle) {raw : Token} (hb : raw.kind ≠ .lineBreak)
    (he : raw.isEnd = false) (hat : t.atLineStart = false) : t.settle raw ⟨[], t.opened⟩ = t := by
  obtain ⟨config, opened, pending, atLineStart, status⟩ := t
  obtain rfl : pending = [] := h.pending
  obtain rfl : atLineStart = false := hat
  simp [Tracker.settle, he, lineStartAfter_of_content _ hb he]

end Tracker

namespace Tracked

/-- The rounds of a pull, with the number of times that they ask the source, the answer and what they leave
behind. -/
inductive Rounds : Tracked σ → ℕ → Reply ε → Tracked σ → Prop where
  | ready {s reply tracker} : s.tracker.ready? ε = some (reply, tracker) →
      Rounds s 0 reply { s with tracker }
  | failure {t source e source'} : t.ready? ε = none → TokenSource.pull source = (.error e, source') →
      Rounds ⟨t, source⟩ 1 (.error e) ⟨t, source'⟩
  | lineBreak {t source raw source'} : t.ready? ε = none → TokenSource.pull source = (.ok raw, source') →
      raw.kind = .lineBreak →
      Rounds ⟨t, source⟩ 1 (.ok raw) ⟨{ t with atLineStart := true }, source'⟩
  | withinLine {t source raw source'} : t.ready? ε = none → TokenSource.pull source = (.ok raw, source') →
      raw.kind ≠ .lineBreak → raw.isEnd = false → t.atLineStart = false →
      Rounds ⟨t, source⟩ 1 (.ok raw) ⟨t, source'⟩
  | refused {t source raw source' d} : t.ready? ε = none → TokenSource.pull source = (.ok raw, source') →
      raw.kind ≠ .lineBreak → raw.isEnd = false → t.atLineStart = true → t.measure raw = .error d →
      Rounds ⟨t, source⟩ 1 (.error (.raggedDedent d))
        ⟨{ t with atLineStart := false, status := .failed d }, source'⟩
  | measured {t source raw source' e k reply s'} : t.ready? ε = none →
      TokenSource.pull source = (.ok raw, source') → raw.kind ≠ .lineBreak → raw.isEnd = false →
      t.atLineStart = true → t.measure raw = .ok e →
      Rounds ⟨{ t with atLineStart := false }.enqueue raw e, source'⟩ k reply s' →
      Rounds ⟨t, source⟩ (k + 1) reply s'
  | flushed {t source raw source' k reply s'} : t.ready? ε = none →
      TokenSource.pull source = (.ok raw, source') → raw.isEnd = true →
      Rounds ⟨t.enqueue raw ⟨List.replicate t.opened.length raw.blockDedent, []⟩, source'⟩ k reply s' →
      Rounds ⟨t, source⟩ (k + 1) reply s'

/-! ### From the queue -/

/-- Behind a raw token that is put in the queue the source is left alone, and the answer is the one that taking
the token gives. -/
theorem pull_enqueue {t : Tracker} {source source' : σ} {raw : Token} {e : Effect} (hi : t.Idle)
    (hpull : TokenSource.pull source = (.ok raw, source')) (he : t.effect raw = .ok e) :
    let queued : Tracked σ := ⟨{ t with atLineStart := t.lineStartAfter raw }.enqueue raw e, source'⟩
    queued.pull = pull ⟨t, source⟩ ∧ queued.tracker.asks = 0 := by
  intro queued
  have hrunning : ∀ d, queued.tracker.status ≠ .failed d := by simp [queued, Tracker.enqueue, hi.running]
  have hbusy : queued.tracker.asks = 0 := by
    rw [Tracker.asks_eq_zero_iff, Tracker.not_idle_iff]
    exact Or.inl (by simp [queued, Tracker.enqueue])
  refine ⟨?_, hbusy⟩
  cases hm : e.markers with
  | nil =>
      have hp : queued.tracker.pending = [raw] := by simp [queued, Tracker.enqueue, hi.pending, hm]
      rw [pull_of_pending hrunning hp, pull_of_effect_nil (s := ⟨t, source⟩) hi hpull he hm]
      rfl
  | cons m ms =>
      have hp : queued.tracker.pending = m :: (ms ++ [raw]) := by
        simp [queued, Tracker.enqueue, hi.pending, hm]
      have hend : m.isEnd = false := Tracker.isEnd_of_mem_markers he m (by simp [hm])
      rw [pull_of_pending hrunning hp, pull_of_effect_cons (s := ⟨t, source⟩) hi hpull he hm, hend]
      rfl

/-! ### Rounds and pulls -/

/-- Rounds that come to an end make the pull. -/
theorem Rounds.eq_pull {s s' : Tracked σ} {k : ℕ} {r : Reply ε} (h : Rounds s k r s') :
    k = s.tracker.asks ∧ s.pull = (r, s') := by
  induction h with
  | ready hready => exact ⟨by simp [Tracker.asks_eq ε, hready], pull_of_ready hready⟩
  | failure hready hpull =>
      have hi := Tracker.idle_of_ready?_eq_none hready
      exact ⟨hi.asks.symm, pull_of_error (s := ⟨_, _⟩) hi hpull⟩
  | @lineBreak t source raw source' hready hpull hb =>
      have hi := Tracker.idle_of_ready?_eq_none hready
      have he : raw.isEnd = false := by simp [Token.isEnd, hb]
      refine ⟨hi.asks.symm, ?_⟩
      rw [pull_of_effect_nil (s := ⟨t, source⟩) hi hpull (t.effect_of_lineBreak hb) rfl]
      simp [Tracker.settle, t.lineStartAfter_of_lineBreak hb, he, hi.pending.symm]
  | @withinLine t source raw source' hready hpull hb he hat =>
      have hi := Tracker.idle_of_ready?_eq_none hready
      have heffect : t.effect raw = .ok ⟨[], t.opened⟩ := by simp [t.effect_of_content hb he, hat]
      refine ⟨hi.asks.symm, ?_⟩
      rw [pull_of_effect_nil (s := ⟨t, source⟩) hi hpull heffect rfl, hi.settle_within_line hb he hat]
  | @refused t source raw source' d hready hpull hb he hat hd =>
      have hi := Tracker.idle_of_ready?_eq_none hready
      have heffect : t.effect raw = .error d := by rw [t.effect_of_content hb he, if_pos hat, hd]
      refine ⟨hi.asks.symm, ?_⟩
      rw [pull_of_refused (s := ⟨t, source⟩) hi hpull heffect]
      simp [t.lineStartAfter_of_content hb he]
  | @measured t source raw source' e k r s' hready hpull hb he hat hmeasure _ ih =>
      have hi := Tracker.idle_of_ready?_eq_none hready
      have heffect : t.effect raw = .ok e := by rw [t.effect_of_content hb he, if_pos hat, hmeasure]
      obtain ⟨hsame, hnone⟩ := pull_enqueue hi hpull heffect
      rw [t.lineStartAfter_of_content hb he] at hsame hnone
      rw [hi.asks, ← hsame, ih.1, hnone]
      exact ⟨rfl, ih.2⟩
  | @flushed t source raw source' k r s' hready hpull he _ ih =>
      have hi := Tracker.idle_of_ready?_eq_none hready
      obtain ⟨hsame, hnone⟩ := pull_enqueue hi hpull (t.effect_of_isEnd he)
      have hat : t.lineStartAfter raw = t.atLineStart := by
        simp [Tracker.lineStartAfter, (Token.isEnd_iff raw).mp he]
      rw [hat] at hsame hnone
      rw [hi.asks, ← hsame, ih.1, hnone]
      exact ⟨rfl, ih.2⟩

/-- Whatever waits, and whatever the source hands out, the rounds come to an end. -/
theorem exists_rounds (s : Tracked σ) : ∃ k r s', Rounds s k r s' := by
  obtain ⟨t, source⟩ := s
  cases hready : t.ready? ε with
  | some p => exact ⟨0, p.1, _, .ready hready⟩
  | none =>
      have hqueued (next : Tracker) (e : Effect) (raw : Token) (source' : σ) (hs : next.status = .running) :
          ∃ k r s', Rounds ⟨next.enqueue raw e, source'⟩ k r s' := by
        have hbusy : (next.enqueue raw e).ready? ε ≠ none := by
          rw [ne_eq, Tracker.ready?_eq_none_iff, Tracker.not_idle_iff]
          exact Or.inl (by simp [Tracker.enqueue])
        obtain ⟨p, hp⟩ := Option.ne_none_iff_exists'.mp hbusy
        exact ⟨0, p.1, _, .ready hp⟩
      have hs := (Tracker.idle_of_ready?_eq_none hready).running
      cases hpull : TokenSource.pull source with
      | mk r source' =>
          cases r with
          | error e => exact ⟨1, _, _, .failure hready hpull⟩
          | ok raw =>
              by_cases hb : raw.kind = .lineBreak
              · exact ⟨1, _, _, .lineBreak hready hpull hb⟩
              · cases he : raw.isEnd with
                | true =>
                    obtain ⟨k, r, s', h⟩ := hqueued t _ raw source' hs
                    exact ⟨k + 1, r, s', .flushed hready hpull he h⟩
                | false =>
                    cases hat : t.atLineStart with
                    | false => exact ⟨1, _, _, .withinLine hready hpull hb he hat⟩
                    | true =>
                        cases hmeasure : t.measure raw with
                        | error d => exact ⟨1, _, _, .refused hready hpull hb he hat hmeasure⟩
                        | ok e =>
                            obtain ⟨k, r, s', h⟩ := hqueued { t with atLineStart := false } e raw source' hs
                            exact ⟨k + 1, r, s', .measured hready hpull hb he hat hmeasure h⟩

/-- The rounds of a pull are the pull. -/
theorem rounds_iff (s : Tracked σ) (k : ℕ) (r : Reply ε) (s' : Tracked σ) :
    Rounds s k r s' ↔ k = s.tracker.asks ∧ s.pull = (r, s') := by
  refine ⟨Rounds.eq_pull, ?_⟩
  rintro ⟨rfl, hpull⟩
  obtain ⟨k, r', s'', h⟩ := s.exists_rounds
  obtain ⟨rfl, hsame⟩ := h.eq_pull
  obtain ⟨rfl, rfl⟩ := Prod.mk.inj (hsame.symm.trans hpull)
  exact h

end Tracked

end LayoutRule
