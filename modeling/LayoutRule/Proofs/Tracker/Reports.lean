import LayoutRule.Proofs.Source.Trace
import LayoutRule.Proofs.Tracker.Run
import Mathlib.Data.List.Forall2

/-! # Events of tracked scanners

All events of a raw token come with the pull that takes it from the scanner: its own, unless it is the end token, and
one for each marker that it causes. The pulls that hand out what waits bring none. -/

namespace LayoutRule

open TokenSource

/-- Whether the event tells of a marker. -/
def Event.isMarker : Event → Bool
  | .scanned _ _ _ => false
  | .synthesized _ _ _ => true

/-- A raw token that was taken, and the markers that it caused. -/
structure Taken where
  raw : Token
  markers : List Token
  deriving DecidableEq, Repr

namespace Taken

/-- The markers stand before the raw token. -/
def tokens (p : Taken) : List Token := p.markers ++ [p.raw]

/-- An event for the raw token, unless it ends the source, and one for each marker, at the place of the raw token. -/
def events (p : Taken) : List Event :=
  (if p.raw.isEnd then [] else [.scanned p.raw.kind p.raw.line p.raw.column]) ++
    p.markers.map fun m => .synthesized m.kind p.raw.line p.raw.column

/-- Among the tokens of a raw token its markers are the markers. -/
theorem filter_tokens {p : Taken} (hraw : p.raw.kind.isSynthetic = false)
    (hm : ∀ m ∈ p.markers, m.kind.isSynthetic = true) : p.tokens.filter (·.kind.isSynthetic) = p.markers := by
  rw [tokens, List.filter_append, List.filter_eq_self.mpr hm, List.filter_eq_nil_iff.mpr (by simp [hraw]),
    List.append_nil]

theorem filter_events (p : Taken) :
    p.events.filter Event.isMarker = p.markers.map fun m => .synthesized m.kind p.raw.line p.raw.column := by
  have hscanned : (if p.raw.isEnd then [] else [Event.scanned p.raw.kind p.raw.line p.raw.column]).filter
      Event.isMarker = [] := by
    split <;> rfl
  rw [events, List.filter_append, hscanned, List.nil_append, List.filter_eq_self]
  simp [Event.isMarker]

/-- The event of a marker stands on the line of the raw token. -/
theorem line_of_mem_events {p : Taken} {kind : TokenKind} {line column : ℕ}
    (h : .synthesized kind line column ∈ p.events) : line = p.raw.line := by
  have h : .synthesized kind line column ∈ p.events.filter Event.isMarker := List.mem_filter.mpr ⟨h, rfl⟩
  rw [filter_events] at h
  obtain ⟨m, -, hm⟩ := List.mem_map.mp h
  exact (Event.synthesized.inj hm).2.1.symm

/-- Events of markers and markers stand in the same order, one for one. -/
theorem forall₂_markers {r : Event → Token → Prop} {ps : List Taken}
    (hraw : ∀ p ∈ ps, p.raw.kind.isSynthetic = false)
    (hm : ∀ p ∈ ps, ∀ m ∈ p.markers, m.kind.isSynthetic = true ∧ r (.synthesized m.kind p.raw.line p.raw.column) m) :
    List.Forall₂ r ((ps.flatMap events).filter Event.isMarker)
      ((ps.flatMap tokens).filter (·.kind.isSynthetic)) := by
  induction ps with
  | nil => exact .nil
  | cons p ps ih =>
      obtain ⟨hraw, hraws⟩ := List.forall_mem_cons.mp hraw
      obtain ⟨hm, hms⟩ := List.forall_mem_cons.mp hm
      rw [List.flatMap_cons, List.flatMap_cons, List.filter_append, List.filter_append, filter_events,
        filter_tokens hraw fun m h => (hm m h).1]
      refine List.rel_append ?_ (ih hraws hms)
      rw [List.forall₂_map_left_iff, List.forall₂_same]
      exact fun m h => (hm m h).2

end Taken

namespace Tracker

/-- What raw tokens cause that are taken one after another. Nothing is taken behind one that is refused. -/
def takings (t : Tracker) : List Token → List Taken
  | [] => []
  | raw :: raws =>
      match t.effect raw with
      | .error _ => [⟨raw, []⟩]
      | .ok e => ⟨raw, e.markers⟩ :: (t.settle raw e).takings raws

theorem takings_cons {t : Tracker} {raw : Token} {e : Effect} (h : t.effect raw = .ok e) (raws : List Token) :
    t.takings (raw :: raws) = ⟨raw, e.markers⟩ :: (t.settle raw e).takings raws := by
  rw [takings, h]

theorem takings_refused {t : Tracker} {raw : Token} {d : RaggedDedent} (h : t.effect raw = .error d)
    (raws : List Token) : t.takings (raw :: raws) = [⟨raw, []⟩] := by
  rw [takings, h]

/-- Markers copy the place of the raw token that causes them. -/
theorem mem_takings {t : Tracker} {raws : List Token} : ∀ p ∈ t.takings raws, ∀ m ∈ p.markers,
    m = p.raw.blockOpen ∨ m = p.raw.blockDedent := by
  induction raws generalizing t with
  | nil => simp [takings]
  | cons raw raws ih =>
      cases he : t.effect raw with
      | error d => simp [takings_refused he]
      | ok e =>
          rw [takings_cons he]
          exact List.forall_mem_cons.mpr ⟨fun m hm => mem_markers he hm, ih⟩

namespace Run

variable {t t' : Tracker} {raws out : List Token}

theorem takings_append (h : t.Run raws out t') (more : List Token) :
    t.takings (raws ++ more) = t.takings raws ++ t'.takings more := by
  induction h with
  | nil => rfl
  | cons _ he _ ih => rw [List.cons_append, takings_cons he, takings_cons he, ih, List.cons_append]

theorem map_raw_takings (h : t.Run raws out t') : (t.takings raws).map Taken.raw = raws := by
  induction h with
  | nil => rfl
  | cons _ he _ ih => rw [takings_cons he, List.map_cons, ih]

/-- A run hands out what it takes, each raw token behind its markers. -/
theorem tokens_takings (h : t.Run raws out t') : (t.takings raws).flatMap Taken.tokens = out := by
  induction h with
  | nil => rfl
  | cons _ he _ ih => rw [takings_cons he, List.flatMap_cons, ih, Taken.tokens, List.append_assoc]; rfl

end Run

end Tracker

namespace Scanner

theorem report_of_ok {s s' : Scanner} {raw : Token} (h : TokenSource.pull s = (.ok raw, s')) :
    ReportingSource.report s = if raw.isEnd then [] else [.scanned raw.kind raw.line raw.column] := by
  have hpull : s.pull = (.ok raw, s') := h
  change Scanner.report s = _
  rw [Scanner.report, hpull]

theorem report_of_error {s s' : Scanner} {e : LexError} (h : TokenSource.pull s = (.error e, s')) :
    ReportingSource.report s = [] := by
  have hpull : s.pull = (.error e, s') := h
  change Scanner.report s = _
  rw [Scanner.report, hpull]

end Scanner

namespace Tracked

variable {t : Tracker} {s s' : Scanner} {raw : Token}

/-! ### Events of one pull -/

theorem report_of_ready {p : Reply × Tracker} (h : t.ready? UnexpectedCharacter = some p) :
    ReportingSource.report (Tracked.mk t s) = [] := by
  change Tracked.report _ = _
  simp [Tracked.report, h]

theorem report_of_ok {e : Effect} (hi : t.Idle) (hpull : TokenSource.pull s = (.ok raw, s'))
    (he : t.effect raw = .ok e) : ReportingSource.report (Tracked.mk t s) = (Taken.mk raw e.markers).events := by
  change Tracked.report _ = _
  simp [Tracked.report, hi.ready?, Scanner.report_of_ok hpull, hpull, he, Taken.events]

theorem report_of_refused {d : RaggedDedent} (hi : t.Idle) (hpull : TokenSource.pull s = (.ok raw, s'))
    (he : t.effect raw = .error d) : ReportingSource.report (Tracked.mk t s) = (Taken.mk raw []).events := by
  change Tracked.report _ = _
  simp [Tracked.report, hi.ready?, Scanner.report_of_ok hpull, hpull, he, Taken.events]

theorem report_of_error {e : LexError} (hi : t.Idle) (hpull : TokenSource.pull s = (.error e, s')) :
    ReportingSource.report (Tracked.mk t s) = [] := by
  change Tracked.report _ = _
  simp [Tracked.report, hi.ready?, Scanner.report_of_error hpull, hpull]

/-! ### Events of a run -/

/-- Handing out waiting tokens brings no events. -/
theorem events_pending (ps : List Token) (hf : ∀ d, t.status ≠ .failed d) (hp : t.pending = ps) :
    events ps.length (Tracked.mk t s) = [] := by
  induction ps generalizing t with
  | nil => rfl
  | cons p ps ih =>
      have hready : t.ready? UnexpectedCharacter = some (t.handOut p ps) := by
        cases hs : t.status with
        | failed d => exact absurd hs (hf d)
        | running => simp [Tracker.ready?, hs, hp]
        | ended final => simp [Tracker.ready?, hs, hp]
      have hpull : TokenSource.pull (Tracked.mk t s) = _ := pull_of_ready (s := ⟨t, s⟩) hready
      rw [List.length_cons, events, report_of_ready hready, hpull, List.nil_append]
      refine ih (fun d => ?_) rfl
      simp only [Tracker.handOut]
      split
      · simp
      · exact hf d

/-- The pulls that hand out a raw token and its markers bring its events. -/
theorem events_turn {e : Effect} (hi : t.Idle) (he : t.effect raw = .ok e)
    (hpull : TokenSource.pull s = (.ok raw, s')) :
    events (e.markers.length + 1) (Tracked.mk t s) = (Taken.mk raw e.markers).events := by
  rw [events, report_of_ok hi hpull he]
  cases hm : e.markers with
  | nil => exact List.append_nil _
  | cons m ms =>
      have hfirst : TokenSource.pull (Tracked.mk t s) = _ := pull_of_effect_cons (s := ⟨t, s⟩) hi hpull he hm
      have hlength : (m :: ms).length = (ms ++ [raw]).length := by simp
      rw [hfirst, hlength, events_pending (ms ++ [raw]) (by simp [Tracker.waiting, hi.running]) rfl, List.append_nil]

theorem events_run {t' : Tracker} {raws out : List Token} (h : t.Run raws out t')
    (hraws : replies raws.length s = raws.map .ok) :
    events out.length (Tracked.mk t s) = (t.takings raws).flatMap Taken.events := by
  induction h generalizing s with
  | nil => rfl
  | @cons t raw raws e out t' hi he _ ih =>
      cases hpull : TokenSource.pull s with
      | mk r s' =>
          simp only [List.length_cons, replies, hpull, List.map_cons, List.cons.injEq] at hraws
          obtain ⟨rfl, hrest⟩ := hraws
          have hlength : (e.markers ++ raw :: out).length = e.markers.length + 1 + out.length := by
            simp only [List.length_append, List.length_cons]
            omega
          rw [hlength, events_add, events_turn hi he hpull, (replies_turn hi he hpull).2, ih hrest,
            Tracker.takings_cons he, List.flatMap_cons]

end Tracked

end LayoutRule
