import LayoutRule.Source.Basic

/-! # Traces

A reporting source tells what its next pull will report. A trace passes every pull on and keeps the events
that went with it. -/

namespace LayoutRule

universe u

/-- A token was scanned, or a marker was put before a token at the given place. -/
inductive Event where
  | scanned (kind : TokenKind) (line column : Nat)
  | synthesized (kind : TokenKind) (line column : Nat)
  deriving DecidableEq, Repr

/-- A source that can tell which events the next pull brings. -/
class ReportingSource (σ : Type u) (ε : outParam Type) extends Source σ ε where
  report : σ → List Event

/-- A source together with the events of all pulls so far. -/
structure Traced (σ : Type u) where
  source : σ
  events : List Event

namespace Traced

variable {σ : Type u} {ε : Type} [ReportingSource σ ε]

def start (source : σ) : Traced σ := ⟨source, []⟩

instance : Source (Traced σ) ε where
  pull s :=
    let (reply, source) := TokenSource.pull s.source
    (reply, ⟨source, s.events ++ ReportingSource.report s.source⟩)
  horizon s := TokenSource.horizon s.source

end Traced

end LayoutRule
