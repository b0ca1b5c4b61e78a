import LayoutRule.Proofs.Tracker.Run

/-! # Where answers come from

A pull through the tracker answers with a marker of its own, with an item of the source, with the refusal
of a line, or as the policy behind the end token says. -/

namespace LayoutRule

open TokenSource

universe u

variable {σ : Type u} {ε : Type} [Source σ ε]

inductive Origin where
  | marker
  | item
  | refusal
  | policy
  deriving DecidableEq, Repr

namespace Origin

/-- The marker that an answer of this origin hands out. -/
def markers : Origin → Reply ε → List Token
  | marker, .ok t => [t]
  | _, _ => []

/-- The item of the source that an answer of this origin hands on. -/
def items : Origin → Reply ε → List (Reply ε)
  | item, r => [r]
  | _, _ => []

end Origin

/-! ### Steady trackers -/

/-- What a tracker keeps in every run. Waiting tokens are closing markers with their raw token behind them,
and nothing is open any more once the end token waits or has been handed out. -/
structure Tracker.Steady (t : Tracker) : Prop where
  nested : Nested t.opened
  queue : t.pending = [] ∨ t.status = .running ∧ ∃ k raw,
    t.pending = List.replicate k raw.blockDedent ++ [raw] ∧ (raw.isEnd = true → t.opened = [])
  ended : ∀ final, t.status = .ended final → t.opened = []

theorem Tracker.steady_start (config : TrackerConfig) : (Tracker.start config).Steady :=
  ⟨.nil, Or.inl rfl, nofun⟩

theorem Tracker.Steady.nothing_left {t : Tracker} (h : t.Steady) (he : t.isExhausted = true) :
    t.opened = [] ∧ t.pending = [] := by
  unfold isExhausted at he
  split at he
  · rename_i final hs
    refine ⟨h.ended final hs, ?_⟩
    rcases h.queue with hp | ⟨hrunning, -⟩
    · exact hp
    · simp [hs] at hrunning
  · cases he

namespace Tracked

/-- Where the next answer comes from. A token with others waiting behind it is a marker. -/
def origin (s : Tracked σ) : Origin :=
  match s.tracker.status, s.tracker.pending with
  | .failed _, _ => .refusal
  | _, _ :: later => if later.isEmpty then .item else .marker
  | .ended _, [] => .policy
  | .running, [] =>
      match (TokenSource.pull s.source).1 with
      | .error _ => .item
      | .ok raw =>
          match s.tracker.effect raw with
          | .error _ => .refusal
          | .ok e => if e.markers.isEmpty then .item else .marker

/-- Everything a pull can do. -/
inductive Pulls : Tracked σ → Origin → Reply ε → Tracked σ → Prop where
  | refusedBefore {s d} : s.tracker.status = .failed d →
      Pulls s .refusal (.error (.raggedDedent d)) s
  | endedBefore {s final} : s.tracker.status = .ended final → s.tracker.pending = [] →
      Pulls s .policy (match s.tracker.config.afterEnd with
        | .again => .ok final
        | .fail => .error .useAfterEnd) s
  | closesMore {t source raw} (k) : t.status = .running →
      t.pending = List.replicate (k + 1) raw.blockDedent ++ [raw] → (raw.isEnd = true → t.opened = []) →
      Pulls ⟨t, source⟩ .marker (.ok raw.blockDedent)
        ⟨{ t with pending := List.replicate k raw.blockDedent ++ [raw] }, source⟩
  | delivers {t source raw} : t.status = .running → t.pending = [raw] →
      (raw.isEnd = true → t.opened = []) →
      Pulls ⟨t, source⟩ .item (.ok raw)
        ⟨{ t with pending := [], status := if raw.isEnd then .ended raw else t.status }, source⟩
  | fails {t source e source'} : t.Idle → TokenSource.pull source = (.error e, source') →
      Pulls ⟨t, source⟩ .item (.error e) ⟨t, source'⟩
  | refuses {t source raw source' d} : t.Idle → TokenSource.pull source = (.ok raw, source') →
      t.effect raw = .error d →
      Pulls ⟨t, source⟩ .refusal (.error (.raggedDedent d))
        ⟨{ t with atLineStart := t.lineStartAfter raw, status := .failed d }, source'⟩
  | opens {t source raw source'} : t.Idle → TokenSource.pull source = (.ok raw, source') →
      t.top < raw.column → t.effect raw = .ok ⟨[raw.blockOpen], raw.column :: t.opened⟩ →
      Pulls ⟨t, source⟩ .marker (.ok raw.blockOpen)
        ⟨t.waiting raw ⟨[raw.blockOpen], raw.column :: t.opened⟩ [raw], source'⟩
  | closes {t source raw source' e} (k closed) : t.Idle →
      TokenSource.pull source = (.ok raw, source') → t.effect raw = .ok e →
      closed.length = k + 1 → t.opened = closed ++ e.opened →
      e.markers = List.replicate (k + 1) raw.blockDedent →
      Pulls ⟨t, source⟩ .marker (.ok raw.blockDedent)
        ⟨t.waiting raw e (List.replicate k raw.blockDedent ++ [raw]), source'⟩
  | passes {t source raw source' e} : t.Idle → TokenSource.pull source = (.ok raw, source') →
      t.effect raw = .ok e → e.markers = [] → e.opened = t.opened →
      Pulls ⟨t, source⟩ .item (.ok raw) ⟨t.settle raw e, source'⟩

private theorem pulls_raw {t : Tracker} {source source' : σ} {raw : Token} (hi : t.Idle)
    (hpull : TokenSource.pull source = (.ok raw, source')) :
    Pulls ⟨t, source⟩ (origin ⟨t, source⟩) (pull ⟨t, source⟩).1 (pull ⟨t, source⟩).2 := by
  cases he : t.effect raw with
  | error d =>
      have horigin : origin (Tracked.mk t source) = .refusal := by
        simp [origin, hi.running, hi.pending, hpull, he]
      rw [horigin, pull_of_refused (s := ⟨t, source⟩) hi hpull he]
      exact .refuses hi hpull he
  | ok e =>
      rcases Tracker.effect_eq_ok he with ⟨hcolumn, rfl⟩ | ⟨closed, hopened, hmarkers⟩
      · have horigin : origin (Tracked.mk t source) = .marker := by
          simp [origin, hi.running, hi.pending, hpull, he]
        rw [horigin, pull_of_effect_cons (s := ⟨t, source⟩) hi hpull he rfl]
        exact .opens hi hpull hcolumn he
      · cases hk : closed.length with
        | zero =>
            have hm : e.markers = [] := by simp [hmarkers, hk]
            have horigin : origin (Tracked.mk t source) = .item := by
              simp [origin, hi.running, hi.pending, hpull, he, hm]
            rw [horigin, pull_of_effect_nil (s := ⟨t, source⟩) hi hpull he hm]
            refine .passes hi hpull he hm ?_
            rw [hopened, List.eq_nil_of_length_eq_zero hk, List.nil_append]
        | succ k =>
            have hm : e.markers = raw.blockDedent :: List.replicate k raw.blockDedent := by
              rw [hmarkers, hk, List.replicate_succ]
            have horigin : origin (Tracked.mk t source) = .marker := by
              simp [origin, hi.running, hi.pending, hpull, he, hm]
            rw [horigin, pull_of_effect_cons (s := ⟨t, source⟩) hi hpull he hm]
            exact .closes k closed hi hpull he hk hopened (hk ▸ hmarkers)

private theorem pulls_steady {t : Tracker} (h : t.Steady) (source : σ) :
    Pulls ⟨t, source⟩ (origin ⟨t, source⟩) (pull ⟨t, source⟩).1 (pull ⟨t, source⟩).2 := by
  rcases h.queue with hp | ⟨hs, k, raw, hp, hend⟩
  · cases hs : t.status with
    | failed d =>
        have horigin : origin (Tracked.mk t source) = .refusal := by simp [origin, hs]
        rw [horigin, pull_of_failed (s := ⟨t, source⟩) hs]
        exact .refusedBefore hs
    | ended final =>
        have horigin : origin (Tracked.mk t source) = .policy := by simp [origin, hs, hp]
        rw [horigin, pull_of_ended (s := ⟨t, source⟩) hs hp]
        exact .endedBefore hs hp
    | running =>
        have hi : t.Idle := ⟨hs, hp⟩
        cases hpull : TokenSource.pull source with
        | mk r source' =>
            cases r with
            | ok raw => exact pulls_raw hi hpull
            | error e =>
                have horigin : origin (Tracked.mk t source) = .item := by
                  simp [origin, hs, hp, hpull]
                rw [horigin, pull_of_error (s := ⟨t, source⟩) hi hpull]
                exact .fails hi hpull
  · cases k with
    | zero =>
        have horigin : origin (Tracked.mk t source) = .item := by simp [origin, hs, hp]
        rw [horigin, pull_of_pending (s := ⟨t, source⟩) (by simp [hs]) hp]
        exact .delivers hs hp hend
    | succ k =>
        have horigin : origin (Tracked.mk t source) = .marker := by
          simp [origin, hs, hp, List.replicate_succ]
        rw [horigin, pull_of_pending (s := ⟨t, source⟩) (by simp [hs]) hp]
        exact .closesMore k hs hp hend

/-- A pull of a steady tracker does one of these things. -/
theorem pulls_pull {s : Tracked σ} (h : s.tracker.Steady) : Pulls s s.origin s.pull.1 s.pull.2 :=
  pulls_steady h s.source

/-- Every pull keeps the tracker steady. -/
theorem Pulls.steady {s s' : Tracked σ} {o : Origin} {r : Reply ε} (h : Pulls s o r s')
    (hs : s.tracker.Steady) : s'.tracker.Steady := by
  cases h with
  | refusedBefore => exact hs
  | endedBefore => exact hs
  | fails => exact hs
  | closesMore k hrunning _ hend =>
      exact ⟨hs.nested, Or.inr ⟨hrunning, k, _, rfl, hend⟩, by simp [hrunning]⟩
  | @delivers t source raw hrunning _ hend =>
      refine ⟨hs.nested, Or.inl rfl, ?_⟩
      intro final hfinal
      cases he : raw.isEnd with
      | true => exact hend he
      | false => simp [he, hrunning] at hfinal
  | refuses hi => exact ⟨hs.nested, Or.inl hi.pending, nofun⟩
  | opens hi _ _ he =>
      exact ⟨Tracker.nested_effect hs.nested he,
        Or.inr ⟨hi.running, 0, _, rfl, Tracker.opened_of_isEnd he⟩, by simp [Tracker.waiting, hi.running]⟩
  | closes k closed hi _ he =>
      exact ⟨Tracker.nested_effect hs.nested he,
        Or.inr ⟨hi.running, k, _, rfl, Tracker.opened_of_isEnd he⟩, by simp [Tracker.waiting, hi.running]⟩
  | @passes t source raw source' e hi _ he =>
      refine ⟨Tracker.nested_effect hs.nested he, Or.inl rfl, ?_⟩
      intro final hfinal
      cases hraw : raw.isEnd with
      | true => exact Tracker.opened_of_isEnd he hraw
      | false => simp [Tracker.settle, hraw, hi.running] at hfinal

theorem steady_after {s : Tracked σ} (h : s.tracker.Steady) (n : ℕ) : (after n s).tracker.Steady := by
  induction n generalizing s with
  | zero => exact h
  | succ n ih => exact ih ((pulls_pull h).steady h)

/-- Behind anything but a marker no marker waits. -/
theorem Pulls.pending_eq_nil {s s' : Tracked σ} {o : Origin} {r : Reply ε} (h : Pulls s o r s')
    (hs : s.tracker.Steady) (ho : o ≠ .marker) : s'.tracker.pending = [] := by
  cases h with
  | refusedBefore hfailed =>
      rcases hs.queue with hp | ⟨hrunning, -⟩
      · exact hp
      · simp [hfailed] at hrunning
  | endedBefore _ hp => exact hp
  | closesMore => exact absurd rfl ho
  | delivers => rfl
  | fails hi => exact hi.pending
  | refuses hi => exact hi.pending
  | opens => exact absurd rfl ho
  | closes => exact absurd rfl ho
  | passes => rfl

/-- A tracker has failed behind a refusal and behind nothing else. -/
theorem Pulls.failed_iff {s s' : Tracked σ} {o : Origin} {r : Reply ε} (h : Pulls s o r s') :
    (∃ d, s'.tracker.status = .failed d) ↔ o = .refusal := by
  cases h with
  | refusedBefore hs => simp [hs]
  | endedBefore hs hp => simp [hs]
  | closesMore k hs hp => simp [hs]
  | @delivers t source raw hs hp => cases he : raw.isEnd <;> simp [hs]
  | fails hi => simp [hi.running]
  | refuses hi => simp
  | opens hi => simp [hi.running, Tracker.waiting]
  | closes k closed hi => simp [hi.running, Tracker.waiting]
  | @passes t source raw source' e hi => cases he : raw.isEnd <;> simp [hi.running, Tracker.settle, he]

/-- A tracker is exhausted once it has handed out an end token, and not before. -/
theorem Pulls.isExhausted_iff {s s' : Tracked σ} {o : Origin} {r : Reply ε} (h : Pulls s o r s') :
    s'.tracker.isExhausted = true ↔ s.tracker.isExhausted = true ∨ ∃ u, r = .ok u ∧ u.isEnd = true := by
  cases h with
  | refusedBefore => simp
  | endedBefore hs => simp [Tracker.isExhausted, hs]
  | closesMore k hs => simp [Tracker.isExhausted, hs]
  | @delivers t source raw hs => cases hraw : raw.isEnd <;> simp [Tracker.isExhausted, hraw, hs]
  | fails => simp
  | refuses hi => simp [Tracker.isExhausted, hi.running]
  | opens hi => simp [Tracker.isExhausted, Tracker.waiting, hi.running]
  | closes k closed hi => simp [Tracker.isExhausted, Tracker.waiting, hi.running]
  | @passes t source raw source' e hi =>
      cases hraw : raw.isEnd <;> simp [Tracker.isExhausted, Tracker.settle, hraw, hi.running]

/-- Along a run the tracker is exhausted from the first end token on, and not before. -/
theorem isExhausted_after_iff {s : Tracked σ} (hs : s.tracker.Steady) (n : ℕ) :
    (after n s).tracker.isExhausted = true ↔
      s.tracker.isExhausted = true ∨ ∃ u, .ok u ∈ replies n s ∧ u.isEnd = true := by
  induction n generalizing s with
  | zero => simp [after, replies]
  | succ n ih =>
      have hpulls := pulls_pull hs
      have hnext : after (n + 1) s = after n s.pull.2 := rfl
      have hreplies : replies (n + 1) s = s.pull.1 :: replies n s.pull.2 := rfl
      rw [hnext, ih (hpulls.steady hs), hpulls.isExhausted_iff, hreplies, or_assoc]
      simp only [List.mem_cons, or_and_right, exists_or, eq_comm]

theorem exhausted_after {s : Tracked σ} (hs : s.tracker.Steady) {n : ℕ}
    (h : s.tracker.isExhausted = true ∨ ∃ t, Except.ok t ∈ replies n s ∧ t.isEnd = true) :
    (after n s).tracker.isExhausted = true :=
  (isExhausted_after_iff hs n).mpr h

end Tracked

end LayoutRule
