import LayoutRule.Proofs.Tracker.Origin
import LayoutRule.Sample
import LayoutRule.Source.Replay

/-! # Agreement of the policies

A strict tracker and a lenient one hand out the same as long as the strict one refuses no line. At the first
line that it refuses, the lenient one closes the columns right of that line. -/

namespace LayoutRule

open TokenSource

universe u

variable {σ : Type u} {ε : Type} [Source σ ε]

namespace Tracker

/-- The tracker with the lenient policy for dedents in place of its own. -/
def relaxed (t : Tracker) : Tracker := { t with config := { t.config with dedent := .lenient } }

@[simp] theorem relaxed_opened (t : Tracker) : t.relaxed.opened = t.opened := rfl

@[simp] theorem relaxed_levels (t : Tracker) : t.relaxed.levels = t.levels := rfl

@[simp] theorem relaxed_lineStartAfter (t : Tracker) (raw : Token) :
    t.relaxed.lineStartAfter raw = t.lineStartAfter raw := rfl

/-! ### A token that is not refused -/

theorem measure_relaxed {t : Tracker} {raw : Token} {e : Effect} (h : t.measure raw = .ok e) :
    t.relaxed.measure raw = .ok e := by
  unfold measure at h ⊢
  split at h
  · rename_i hc
    rw [if_pos (show t.relaxed.top < raw.column from hc)]
    exact h
  · rename_i hc
    rw [if_neg (show ¬t.relaxed.top < raw.column from hc)]
    split at h
    · cases h
    · rw [if_neg (by simp [relaxed])]
      exact h

theorem effect_relaxed {t : Tracker} {raw : Token} {e : Effect} (h : t.effect raw = .ok e) :
    t.relaxed.effect raw = .ok e := by
  by_cases hb : raw.kind = .lineBreak
  · rw [effect_of_lineBreak _ hb] at h ⊢
    exact h
  · cases he : raw.isEnd with
    | true =>
        rw [effect_of_isEnd _ he] at h ⊢
        exact h
    | false =>
        rw [effect_of_content _ hb he] at h ⊢
        have hstart : t.relaxed.atLineStart = t.atLineStart := rfl
        rw [hstart]
        split at h
        · rw [if_pos ‹_›]
          exact measure_relaxed h
        · rw [if_neg ‹_›]
          exact h

theorem emit_relaxed (t : Tracker) (raw : Token) (ms : List Token) :
    t.relaxed.emit raw ms = (t.emit raw ms : Reply ε × Tracker).map id relaxed := by
  cases ms <;> rfl

theorem accept_relaxed {t : Tracker} {raw : Token} {e : Effect} (h : t.effect raw = .ok e) :
    t.relaxed.accept raw = (t.accept raw : Reply ε × Tracker).map id relaxed := by
  simp only [accept, h, effect_relaxed h]
  exact emit_relaxed ⟨t.config, e.opened, t.pending, t.lineStartAfter raw, t.status⟩ raw e.markers

theorem ready?_relaxed (t : Tracker) :
    t.relaxed.ready? ε = (t.ready? ε).map fun p => (p.1, p.2.relaxed) := by
  obtain ⟨⟨dedent, afterEnd⟩, opened, pending, atLineStart, status⟩ := t
  cases status <;> cases pending <;> cases afterEnd <;> rfl

/-! ### A token that is refused -/

theorem effect_relaxed_of_error {t : Tracker} {raw : Token} {d : RaggedDedent}
    (h : t.effect raw = .error d) :
    t.relaxed.effect raw = .ok ⟨(t.opened.takeWhile (raw.column < ·)).map fun _ => raw.blockDedent,
      t.opened.dropWhile (raw.column < ·)⟩ := by
  obtain ⟨hb, he, hstart, hmeasure⟩ := effect_eq_error h
  obtain ⟨hcolumn, -⟩ := measure_eq_error hmeasure
  have hright : ¬t.relaxed.top < raw.column := Nat.not_lt_of_lt hcolumn
  rw [effect_of_content _ hb he, if_pos (show t.relaxed.atLineStart = true from hstart), measure,
    if_neg hright, if_neg (by simp [relaxed])]
  rfl

/-- In place of a refusal the lenient policy closes the columns right of the token. There is one, and those
left of the token stay open. -/
theorem exists_effect_relaxed {t : Tracker} (hn : Nested t.opened) {raw : Token} {d : RaggedDedent}
    (h : t.effect raw = .error d) :
    ∃ e ms, t.relaxed.effect raw = .ok e ∧ e.markers = raw.blockDedent :: ms ∧ raw.line = d.line ∧
      0 :: e.opened.reverse = t.levels.filter (· < d.column) ∧ e.opened.headD 0 = d.nearest := by
  have hrelaxed := effect_relaxed_of_error h
  obtain ⟨-, -, -, hmeasure⟩ := effect_eq_error h
  obtain ⟨hcolumn, -, hlevel, rfl⟩ := measure_eq_error hmeasure
  rw [mem_levels, not_or] at hlevel
  -- no level stands at the column, so those that are not right of it are left of it
  have hleft : t.opened.dropWhile (raw.column < ·) = t.opened.filter (· < raw.column) := by
    rw [hn.dropWhile_eq_filter]
    apply List.filter_congr
    intro c hc
    have hne : c ≠ raw.column := by
      rintro rfl
      exact hlevel.2 hc
    simp only [decide_eq_decide]
    omega
  rw [hleft] at hrelaxed
  cases hopened : t.opened with
  | nil => simp [top, hopened] at hcolumn
  | cons c opened =>
      have hc : raw.column < c := by simpa [top, hopened] using hcolumn
      have hzero : 0 < raw.column := Nat.pos_of_ne_zero hlevel.1
      refine ⟨_, (opened.takeWhile (raw.column < ·)).map fun _ => raw.blockDedent, hrelaxed, ?_, rfl, ?_, ?_⟩
      · simp [hopened, hc]
      · simp [levels, hzero, List.filter_reverse]
      · rw [nearest, ← List.head?_filter, List.headD_eq_head?_getD]

end Tracker

namespace Tracked

open Tracker

def relaxed (s : Tracked σ) : Tracked σ := ⟨s.tracker.relaxed, s.source⟩

/-! ### Side by side -/

/-- One pull is the same under both policies unless a line is refused. -/
theorem pull_relaxed {s : Tracked σ} (h : s.origin ≠ .refusal) :
    s.relaxed.pull = (s.pull.1, s.pull.2.relaxed) := by
  cases hready : s.tracker.ready? ε with
  | some p => simp [pull, relaxed, ready?_relaxed, hready]
  | none =>
      have hi := idle_of_ready?_eq_none hready
      cases hpull : TokenSource.pull s.source with
      | mk r source =>
          cases r with
          | error e => simp [pull, relaxed, ready?_relaxed, hready, hpull]
          | ok raw =>
              cases he : s.tracker.effect raw with
              | error d => simp [origin, hi.running, hi.pending, hpull, he] at h
              | ok e => simp [pull, relaxed, ready?_relaxed, hready, hpull, accept_relaxed he]

/-- A refusal answers with a ragged dedent. -/
theorem Pulls.of_refusal {s s' : Tracked σ} {o : Origin} {r : Reply ε} (h : Pulls s o r s')
    (ho : o = .refusal) : ∃ d, r = .error (.raggedDedent d) := by
  cases h with
  | refusedBefore => exact ⟨_, rfl⟩
  | refuses => exact ⟨_, rfl⟩
  | _ => cases ho

theorem replies_relaxed {s : Tracked σ} (hs : s.tracker.Steady) {n : ℕ}
    (h : ∀ d, .error (.raggedDedent d) ∉ replies n s) :
    replies n s.relaxed = replies n s ∧ after n s.relaxed = (after n s).relaxed := by
  induction n generalizing s with
  | zero => exact ⟨rfl, rfl⟩
  | succ n ih =>
      have hpulls := pulls_pull hs
      have horigin : s.origin ≠ .refusal := by
        intro ho
        obtain ⟨d, hd⟩ := hpulls.of_refusal ho
        exact h d (hd ▸ List.mem_cons_self)
      have hpull : TokenSource.pull s.relaxed = _ := pull_relaxed horigin
      obtain ⟨hreplies, hafter⟩ := ih (hpulls.steady hs) fun d hd => h d (List.mem_cons_of_mem _ hd)
      rw [replies, after, hpull, hreplies, hafter]
      exact ⟨rfl, rfl⟩

/-! ### The first refusal -/

theorem Pulls.not_failed {s s' : Tracked σ} {o : Origin} {r : Reply ε} (h : Pulls s o r s')
    (hr : ∀ d, r ≠ .error (.raggedDedent d)) : ∀ d, s'.tracker.status ≠ .failed d := by
  intro d hd
  obtain ⟨d', hd'⟩ := h.of_refusal (h.failed_iff.mp ⟨d, hd⟩)
  exact hr d' hd'

theorem not_failed_after {s : Tracked σ} (hs : s.tracker.Steady)
    (hf : ∀ d, s.tracker.status ≠ .failed d) {n : ℕ}
    (h : ∀ d, .error (.raggedDedent d) ∉ replies n s) : ∀ d, (after n s).tracker.status ≠ .failed d := by
  induction n generalizing s with
  | zero => exact hf
  | succ n ih =>
      have hpulls := pulls_pull hs
      refine ih (s := s.pull.2) (hpulls.steady hs) (hpulls.not_failed ?_) ?_
      · intro d hd
        exact h d (hd ▸ List.mem_cons_self)
      · exact fun d hd => h d (List.mem_cons_of_mem _ hd)

/-- A ragged dedent is an error of the source that is passed on, or a line is refused. -/
theorem Pulls.of_ragged {s s' : Tracked σ} {o : Origin} {r : Reply ε} (h : Pulls s o r s')
    (hf : ∀ d, s.tracker.status ≠ .failed d) {d : RaggedDedent} (hr : r = .error (.raggedDedent d)) :
    (TokenSource.pull s.source).1 = .error (.raggedDedent d) ∧ o = .item ∧ s'.tracker = s.tracker ∨
      s.tracker.Idle ∧ s'.tracker.opened = s.tracker.opened ∧
        ∃ raw source, TokenSource.pull s.source = (.ok raw, source) ∧ s.tracker.effect raw = .error d := by
  cases h with
  | refusedBefore hs => exact absurd hs (hf _)
  | endedBefore => split at hr <;> cases hr
  | fails _ hpull => exact Or.inl ⟨by rw [hpull, hr], rfl, rfl⟩
  | refuses hi hpull he =>
      cases hr
      exact Or.inr ⟨hi, rfl, _, _, hpull, he⟩
  | _ => cases hr

/-- Run over the same source, a strict and a lenient tracker hand out the same and have the same levels, up to
the first ragged dedent. If that is the error of the source, both pass it on. Otherwise the lenient tracker
closes a block on the line that the strict one refuses; its levels are then those left of the line, and
the last of them is the one that the refusal names. -/
theorem strict_agrees_with_lenient (afterEnd : ExhaustionPolicy) (source : σ) (n : ℕ) :
    let strict := Tracked.start ⟨.strict, afterEnd⟩ source
    let lenient := Tracked.start ⟨.lenient, afterEnd⟩ source
    (∀ d, .error (.raggedDedent d) ∉ replies n strict) →
      (replies n lenient = replies n strict ∧
        ∀ k ≤ n, (after k lenient).tracker.levels = (after k strict).tracker.levels) ∧
      ∀ d, (TokenSource.pull (after n strict)).1 = .error (.raggedDedent d) →
        ((TokenSource.pull (after n strict).source).1 = .error (.raggedDedent d) ∧
          (TokenSource.pull (after n lenient)).1 = .error (.raggedDedent d) ∧
          (after (n + 1) lenient).tracker.levels = (after (n + 1) strict).tracker.levels) ∨
        ((TokenSource.pull (after n strict).source).1 ≠ .error (.raggedDedent d) ∧
          (∃ m, (TokenSource.pull (after n lenient)).1 = .ok m ∧ m.kind = .blockDedent ∧ m.line = d.line) ∧
          (after (n + 1) lenient).tracker.levels =
            (after (n + 1) strict).tracker.levels.filter (· < d.column) ∧
          (after (n + 1) lenient).tracker.levels.getLast? = some d.nearest) := by
  intro strict lenient h
  have hstart : strict.tracker.Steady := Tracker.steady_start _
  have hside {k : ℕ} (hk : k ≤ n) :
      replies k lenient = replies k strict ∧ after k lenient = (after k strict).relaxed := by
    apply replies_relaxed hstart
    intro d hd
    rw [← take_replies hk] at hd
    exact h d (List.mem_of_mem_take hd)
  refine ⟨⟨(hside le_rfl).1, fun k hk => by rw [(hside hk).2]; rfl⟩, fun d hd => ?_⟩
  have hsteady := steady_after hstart n
  have hlast (s : Tracked σ) : after (n + 1) s = (after n s).pull.2 := after_add n 1 s
  have hpulls := pulls_pull hsteady
  rw [hlast, hlast, (hside le_rfl).2]
  rcases hpulls.of_ragged (not_failed_after hstart nofun h) hd with
    ⟨hsource, hitem, -⟩ | ⟨hi, hopened, raw, source', hpull, he⟩
  · have hpull := pull_relaxed (s := after n strict) (by simp [hitem])
    refine Or.inl ⟨hsource, ?_, ?_⟩
    · exact (congrArg Prod.fst hpull).trans hd
    · rw [hpull]
      rfl
  · obtain ⟨e, ms, heffect, hmarkers, hline, hlevels, hnearest⟩ :=
      Tracker.exists_effect_relaxed hsteady.nested he
    have hpull' := pull_of_effect_cons (s := (after n strict).relaxed) ⟨hi.running, hi.pending⟩ hpull
      heffect hmarkers
    refine Or.inr ⟨by simp [hpull], ⟨_, congrArg Prod.fst hpull', rfl, hline⟩, ?_, ?_⟩
    · have hstrict : (after n strict).pull.2.tracker.levels = (after n strict).tracker.levels := by
        rw [levels, hopened, levels]
      rw [hpull', hstrict, ← hlevels]
      rfl
    · rw [hpull', Tracker.getLast?_levels, ← hnearest]
      rfl

/-- The fourth line stands between the levels 4 and 8. -/
theorem strict_agrees_with_lenient_ragged :
    let source := Replay.ofTokens (Sample.linesAt [0, 4, 8, 6])
    let strict := Tracked.start ⟨.strict, .again⟩ source
    let lenient := Tracked.start ⟨.lenient, .again⟩ source
    (∀ d, .error (.raggedDedent d) ∉ replies 8 strict) ∧
      (TokenSource.pull (after 8 strict)).1 = .error (.raggedDedent ⟨4, 6, 4⟩) ∧
      replies 8 lenient = replies 8 strict ∧
      (∃ m, (TokenSource.pull (after 8 lenient)).1 = .ok m ∧ m.kind = .blockDedent ∧ m.line = 4) ∧
      (after 9 lenient).tracker.levels = [0, 4] := by
  intro source strict lenient
  have hok : ∀ r ∈ replies 8 strict, r.isOk = true := by decide +kernel
  have hnone : ∀ d, .error (.raggedDedent d) ∉ replies 8 strict := fun d hd => by
    cases hok _ hd
  have hragged : (TokenSource.pull (after 8 strict)).1 = .error (.raggedDedent ⟨4, 6, 4⟩) := by
    decide +kernel
  have hlevels : (after 9 strict).tracker.levels = [0, 4, 8] := by decide +kernel
  obtain ⟨⟨hreplies, -⟩, hfirst⟩ := strict_agrees_with_lenient .again source 8 hnone
  rcases hfirst _ hragged with ⟨hsource, -⟩ | ⟨-, hdedent, hleft, -⟩
  · exact absurd hsource (by decide +kernel)
  · exact ⟨hnone, hragged, hreplies, hdedent, by rw [hleft, hlevels]; decide⟩

/-- Over a strict tracker, whose ragged dedent both pass on, the lenient one closes no block. -/
theorem ragged_dedent_of_source_closes_nothing :
    let source := Tracked.start ⟨.strict, .again⟩ (Replay.ofTokens (Sample.linesAt [0, 4, 2]))
    let strict := Tracked.start ⟨.strict, .again⟩ source
    let lenient := Tracked.start ⟨.lenient, .again⟩ source
    (∀ d, .error (.raggedDedent d) ∉ replies 5 strict) ∧
      (TokenSource.pull (after 5 strict)).1 = .error (.raggedDedent ⟨3, 2, 0⟩) ∧
      ¬∃ m, (TokenSource.pull (after 5 lenient)).1 = .ok m ∧ m.kind = .blockDedent ∧ m.line = 3 := by
  intro source strict lenient
  have hok : ∀ r ∈ replies 5 strict, r.isOk = true := by decide +kernel
  have hpassed : (TokenSource.pull (after 5 lenient)).1 = .error (.raggedDedent ⟨3, 2, 0⟩) := by
    decide +kernel
  refine ⟨fun d hd => ?_, by decide +kernel, ?_⟩
  · cases hok _ hd
  · rintro ⟨m, hm, -⟩
    cases hpassed.symm.trans hm

end Tracked

end LayoutRule
