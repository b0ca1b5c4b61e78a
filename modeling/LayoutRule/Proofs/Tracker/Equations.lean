import LayoutRule.Proofs.Tracker.Effect
import LayoutRule.Tracker.Source

/-! # Equations of a tracked pull -/

namespace LayoutRule

universe u

variable {σ : Type u} {ε : Type}

namespace Tracker

/-- An idle tracker answers nothing without a raw token. -/
structure Idle (t : Tracker) : Prop where
  running : t.status = .running
  pending : t.pending = []

theorem idle_start (config : TrackerConfig) : (start config).Idle := ⟨rfl, rfl⟩

theorem Idle.ready? {t : Tracker} (h : t.Idle) : t.ready? ε = none := by
  simp [Tracker.ready?, h.running, h.pending]

theorem idle_of_ready?_eq_none {t : Tracker} (h : t.ready? ε = none) : t.Idle := by
  obtain ⟨⟨dedent, afterEnd⟩, opened, pending, atLineStart, status⟩ := t
  cases status <;> cases pending <;> cases afterEnd <;> first | exact ⟨rfl, rfl⟩ | cases h

/-- The tracker once a raw token and the markers before it have been handed out. -/
def settle (t : Tracker) (raw : Token) (e : Effect) : Tracker :=
  ⟨t.config, e.opened, [], t.lineStartAfter raw, if raw.isEnd then .ended raw else t.status⟩

theorem Idle.settle {t : Tracker} (h : t.Idle) {raw : Token} (he : raw.isEnd = false) (e : Effect) :
    (t.settle raw e).Idle :=
  ⟨by simp [Tracker.settle, he, h.running], rfl⟩

/-- The tracker while the tokens `later` wait behind the ones already handed out. -/
def waiting (t : Tracker) (raw : Token) (e : Effect) (later : List Token) : Tracker :=
  ⟨t.config, e.opened, later, t.lineStartAfter raw, t.status⟩

end Tracker

namespace Tracked

variable [Source σ ε] {s : Tracked σ}

theorem pull_of_ready {p : Reply ε × Tracker} (h : s.tracker.ready? ε = some p) :
    s.pull = (p.1, ⟨p.2, s.source⟩) := by
  simp [pull, h]

theorem pull_of_raw {raw : Token} {source : σ} (h : s.tracker.ready? ε = none)
    (hpull : TokenSource.pull s.source = (.ok raw, source)) :
    s.pull = ((s.tracker.accept raw).1, ⟨(s.tracker.accept raw : Reply ε × Tracker).2, source⟩) := by
  simp [pull, h, hpull]

theorem pull_of_failed {d : RaggedDedent} (h : s.tracker.status = .failed d) :
    s.pull = (.error (.raggedDedent d), s) := by
  simp [pull, Tracker.ready?, h]

theorem pull_of_pending {p : Token} {ps : List Token} (hf : ∀ d, s.tracker.status ≠ .failed d)
    (hp : s.tracker.pending = p :: ps) :
    s.pull = (.ok p, { s with tracker := { s.tracker with
      pending := ps, status := if p.isEnd then .ended p else s.tracker.status } }) := by
  cases hs : s.tracker.status with
  | failed d => exact absurd hs (hf d)
  | running => simp [pull, Tracker.ready?, hs, hp, Tracker.handOut]
  | ended final => simp [pull, Tracker.ready?, hs, hp, Tracker.handOut]

theorem pull_of_ended {final : Token} (hs : s.tracker.status = .ended final)
    (hp : s.tracker.pending = []) :
    s.pull = (match s.tracker.config.afterEnd with
      | .again => .ok final
      | .fail => .error .useAfterEnd, s) := by
  cases ha : s.tracker.config.afterEnd <;> simp [pull, Tracker.ready?, hs, hp, ha]

theorem pull_of_error {e : SourceError ε} {source : σ} (hi : s.tracker.Idle)
    (hpull : TokenSource.pull s.source = (.error e, source)) :
    s.pull = (.error e, ⟨s.tracker, source⟩) := by
  simp [pull, hi.ready?, hpull]

theorem pull_of_refused {raw : Token} {d : RaggedDedent} {source : σ} (hi : s.tracker.Idle)
    (hpull : TokenSource.pull s.source = (.ok raw, source)) (he : s.tracker.effect raw = .error d) :
    s.pull = (.error (.raggedDedent d), ⟨{ s.tracker with
      atLineStart := s.tracker.lineStartAfter raw, status := .failed d }, source⟩) := by
  simp [pull, hi.ready?, hpull, Tracker.accept, he]

theorem pull_of_effect_nil {raw : Token} {e : Effect} {source : σ} (hi : s.tracker.Idle)
    (hpull : TokenSource.pull s.source = (.ok raw, source)) (he : s.tracker.effect raw = .ok e)
    (hm : e.markers = []) : s.pull = (.ok raw, ⟨s.tracker.settle raw e, source⟩) := by
  simp [pull, hi.ready?, hpull, Tracker.accept, he, hm, Tracker.emit, Tracker.handOut, Tracker.settle]

theorem pull_of_effect_cons {raw m : Token} {ms : List Token} {e : Effect} {source : σ}
    (hi : s.tracker.Idle) (hpull : TokenSource.pull s.source = (.ok raw, source))
    (he : s.tracker.effect raw = .ok e) (hm : e.markers = m :: ms) :
    s.pull = (.ok m, ⟨s.tracker.waiting raw e (ms ++ [raw]), source⟩) := by
  have hend : m.isEnd = false := Tracker.isEnd_of_mem_markers he m (by simp [hm])
  simp [pull, hi.ready?, hpull, Tracker.accept, he, hm, Tracker.emit, Tracker.handOut, hend,
    Tracker.waiting]

end Tracked

end LayoutRule
