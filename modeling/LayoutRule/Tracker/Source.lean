import LayoutRule.Source.Trace
import LayoutRule.Tracker.Basic

/-! # Tracked sources

A tracker in front of a source is a source again. A pull takes at most one raw token, and passes an error
of the source on without touching the tracker. -/

namespace LayoutRule

universe u

structure Tracked (σ : Type u) where
  tracker : Tracker
  source : σ

namespace Tracked

variable {σ : Type u} {ε : Type}

def start (config : TrackerConfig) (source : σ) : Tracked σ :=
  ⟨Tracker.start config, source⟩

def pull [Source σ ε] (s : Tracked σ) : Reply ε × Tracked σ :=
  match s.tracker.ready? ε with
  | some (reply, tracker) => (reply, { s with tracker })
  | none =>
      match TokenSource.pull s.source with
      | (.error e, source) => (.error e, { s with source })
      | (.ok raw, source) =>
          let (reply, tracker) := s.tracker.accept raw
          (reply, ⟨tracker, source⟩)

/-- Each raw token within the horizon of the source opens at most one column, and each column is closed at
most once. -/
def horizon [Source σ ε] (s : Tracked σ) : Nat :=
  s.tracker.pending.length + s.tracker.opened.length + 3 * TokenSource.horizon s.source + 1

instance [Source σ ε] : Source (Tracked σ) ε where
  pull := pull
  horizon := horizon

/-- The events of a raw token come first, then one for each marker that it causes. -/
def report [ReportingSource σ ε] (s : Tracked σ) : List Event :=
  match s.tracker.ready? ε with
  | some _ => []
  | none =>
      ReportingSource.report s.source ++
        match (TokenSource.pull s.source).1 with
        | .error _ => []
        | .ok raw =>
            match s.tracker.effect raw with
            | .error _ => []
            | .ok e => e.markers.map fun m => .synthesized m.kind raw.line raw.column

instance [ReportingSource σ ε] : ReportingSource (Tracked σ) ε where
  report := report

end Tracked

end LayoutRule
