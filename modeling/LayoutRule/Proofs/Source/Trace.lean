import LayoutRule.Proofs.Source.Drain

/-! # Traced readings

A trace changes nothing about what is read. It keeps the events of every pull, in order. -/

namespace LayoutRule

namespace TokenSource

universe u

variable {σ : Type u}

theorem Reads.after_eq [Source σ ε] {s s' : σ} {ts : List Token} {r : Reply ε} (h : Reads s ts r s') :
    after (ts.length + 1) s = s' := by
  induction h with
  | stop hp => simp [after, hp]
  | token hp _ _ ih => rw [List.length_cons, after, hp, ih]

variable [ReportingSource σ ε]

/-- The events of the next `n` pulls. -/
def events : ℕ → σ → List Event
  | 0, _ => []
  | n + 1, s => ReportingSource.report s ++ events n (pull s).2

theorem events_add (m n : ℕ) (s : σ) : events (m + n) s = events m s ++ events n (after m s) := by
  induction m generalizing s with
  | zero => simp [events, after]
  | succ m ih => rw [Nat.succ_add, events, events, ih, after, List.append_assoc]

theorem pull_traced (s : Traced σ) :
    pull s = ((pull s.source).1, ⟨(pull s.source).2, s.events ++ ReportingSource.report s.source⟩) := rfl

/-- What is read of a source is read of its trace, and the trace is longer by the events of these pulls. -/
theorem Reads.traced {s s' : σ} {ts : List Token} {r : Reply ε} (h : Reads s ts r s') (before : List Event) :
    Reads (Traced.mk s before) ts r ⟨s', before ++ events (ts.length + 1) s⟩ := by
  induction h generalizing before with
  | @stop s r s' hp hr =>
      have hpull : pull (Traced.mk s before) = (r, ⟨s', before ++ events 1 s⟩) := by
        simp [pull_traced, hp, events]
      exact .stop hpull hr
  | @token s t s' ts r s'' hp ht _ ih =>
      have hpull : pull (Traced.mk s before) = (.ok t, ⟨s', before ++ ReportingSource.report s⟩) := by
        simp [pull_traced, hp]
      have hevents : events ((t :: ts).length + 1) s = ReportingSource.report s ++ events (ts.length + 1) s' := by
        rw [List.length_cons, events, hp]
      rw [hevents, ← List.append_assoc]
      exact .token hpull ht (ih _)

end TokenSource

open TokenSource

/-- Collecting the trace of a source collects the source, and the events of all pulls. -/
theorem collect_traced {σ : Type*} {ε : Type} [ReportingSource σ ε] {s s' : σ} {ts : List Token} {r : Reply ε}
    (h : Reads s ts r s') (hn : ts.length < horizon s) :
    collect (Traced.start s) = ((collect s).1, ⟨s', events (ts.length + 1) s⟩) := by
  have htraced := h.traced []
  rw [List.nil_append] at htraced
  rw [collect_of_reads h hn]
  exact collect_of_reads htraced hn

end LayoutRule
