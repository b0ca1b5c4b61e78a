import LayoutRule.Proofs.Tracker.Run
import LayoutRule.Source.Replay

/-! # Horizons

A horizon is no bound of its own on what can be read: a source that stops at all stops within it. The prepared
sources and the scanner keep to this, and a tracker in front of a source that does keeps to it as well. -/

namespace LayoutRule

namespace TokenSource

universe u

variable {σ : Type u} {ε : Type} [Source σ ε]

/-- The source comes to an end token or an error. -/
def Stops (s : σ) : Prop := ∃ n, (pull (after n s)).1.stops = true

/-- From reply `n` on nothing new comes: a reader of the whole source stops there, or it is repeated for ever. -/
def SettlesAt (n : ℕ) (s : σ) : Prop :=
  (pull (after n s)).1.stops = true ∨ ∀ m, (pull (after (n + m) s)).1 = (pull (after n s)).1

theorem SettlesAt.of_after {m n : ℕ} {s : σ} (h : SettlesAt n (after m s)) : SettlesAt (m + n) s := by
  refine h.imp (fun hstops => ?_) fun hsame k => ?_
  · rwa [after_add]
  · rw [Nat.add_assoc, after_add, hsame k, after_add]

theorem settlesAt_of_fixed {s : σ} (h : (pull s).2 = s) : SettlesAt 0 s := by
  have hafter (m : ℕ) : after m s = s := by
    induction m with
    | zero => rfl
    | succ m ih => rw [after, h, ih]
  exact Or.inr fun m => by rw [hafter, hafter]

/-- Sources that stop within their horizon if they ever do. -/
class Timely (σ : Type u) {ε : outParam Type} [Source σ ε] : Prop where
  stops_within_horizon : ∀ s : σ, Stops s → ∃ n < horizon s, (pull (after n s)).1.stops = true

/-- Sources that bring nothing new behind their horizon. -/
class Settling (σ : Type u) {ε : outParam Type} [Source σ ε] : Prop where
  settles_within_horizon : ∀ s : σ, ∃ n < horizon s, SettlesAt n s

instance [Settling σ] : Timely σ where
  stops_within_horizon := by
    intro s hstops
    obtain ⟨m, hm⟩ := hstops
    obtain ⟨n, hn, hsettles⟩ := Settling.settles_within_horizon s
    rcases hsettles with hstops | hsame
    · exact ⟨n, hn, hstops⟩
    · by_cases hmn : m < n
      · exact ⟨m, hmn.trans hn, hm⟩
      · obtain ⟨k, rfl⟩ := Nat.exists_eq_add_of_le (Nat.le_of_not_lt hmn)
        exact ⟨n, hn, hsame k ▸ hm⟩

/-- A reading takes fewer tokens than the horizon says. -/
theorem Reads.length_lt_horizon [Timely σ] {s s' : σ} {ts : List Token} {r : Reply ε} (h : Reads s ts r s') :
    ts.length < horizon s := by
  obtain ⟨-, hlast⟩ := replies_eq_append h.replies_eq
  obtain ⟨n, hn, hstop⟩ := Timely.stops_within_horizon s ⟨_, hlast ▸ h.stops_eq_true⟩
  obtain ⟨us, q, s'', hreads, hlength⟩ :=
    exists_reads ⟨_, List.mem_of_getElem? (getElem?_replies hn s), hstop⟩
  obtain ⟨rfl, -⟩ := h.unique hreads
  exact hlength

end TokenSource

open TokenSource

universe u

/-! ### Prepared sources and the scanner -/

instance : Settling Script where
  settles_within_horizon := by
    rintro ⟨upcoming, last⟩
    refine ⟨upcoming.length, Nat.lt_succ_self _, ?_⟩
    induction upcoming with
    | nil => exact settlesAt_of_fixed rfl
    | cons r upcoming ih =>
        rw [List.length_cons, Nat.add_comm]
        exact SettlesAt.of_after ih

instance : Settling Replay where
  settles_within_horizon := by
    rintro ⟨upcoming, final⟩
    refine ⟨upcoming.length, Nat.lt_succ_self _, ?_⟩
    induction upcoming with
    | nil => exact settlesAt_of_fixed rfl
    | cons t upcoming ih =>
        rw [List.length_cons, Nat.add_comm]
        exact SettlesAt.of_after ih

instance : Settling Scanner where
  settles_within_horizon := by
    intro s
    obtain ⟨ts, r, s', hreads, hlength⟩ := s.exists_reads
    refine ⟨ts.length, hlength, Or.inl ?_⟩
    have hwhole : Reads s (ts ++ []) r s' := by simpa using hreads
    cases hwhole.split.2 with
    | stop hpull hstops => rwa [hpull]

/-- The tokens of a text are those of a reading of its scanner. -/
theorem tokenize_of_reads {text : String} {ts : List Token} {r : Reply} {s : Scanner}
    (h : Reads (Scanner.ofText text) ts r s) : tokenize text = r.map fun t => ts ++ [t] :=
  congrArg Prod.fst (h.drainWithin h.length_lt_horizon)

/-! ### Tracked sources -/

namespace Tracked

variable {σ : Type u} {ε : Type} [Source σ ε]

/-- Waiting tokens are handed out in as many pulls, unless an end token is among them. -/
theorem settles_or_empties (t : Tracker) (source : σ) (hf : ∀ d, t.status ≠ .failed d) :
    (∃ n < t.pending.length, SettlesAt n (Tracked.mk t source)) ∨
      after t.pending.length (Tracked.mk t source) = ⟨{ t with pending := [] }, source⟩ := by
  induction hp : t.pending generalizing t with
  | nil =>
      obtain ⟨config, opened, pending, atLineStart, status⟩ := t
      obtain rfl : pending = [] := hp
      exact Or.inr rfl
  | cons p ps ih =>
      have hpull := pull_of_pending (s := Tracked.mk t source) hf hp
      have hpull : TokenSource.pull (Tracked.mk t source) = _ := hpull
      cases hend : p.isEnd with
      | true => exact Or.inl ⟨0, Nat.succ_pos _, Or.inl (by simpa [after, hpull, Reply.stops] using hend)⟩
      | false =>
          rw [hend] at hpull
          have hnext : (TokenSource.pull (Tracked.mk t source)).2 = ⟨{ t with pending := ps }, source⟩ := by
            rw [hpull]
            rfl
          rcases ih { t with pending := ps } hf rfl with ⟨n, hn, hsettles⟩ | hempty
          · refine Or.inl ⟨n + 1, Nat.succ_lt_succ hn, ?_⟩
            rw [Nat.add_comm]
            refine SettlesAt.of_after ?_
            rwa [after, after, hnext]
          · refine Or.inr ?_
            rw [List.length_cons, after, hnext, hempty]

theorem pull_of_repeated {t : Tracker} (hi : t.Idle) {raw : Token} (hend : raw.isEnd = false)
    (hpasses : raw.kind = .lineBreak ∨ t.atLineStart = false) {source source' : σ}
    (hpull : TokenSource.pull source = (.ok raw, source')) :
    TokenSource.pull (Tracked.mk t source) = (.ok raw, ⟨t.settle raw ⟨[], t.opened⟩, source'⟩) := by
  have heffect : t.effect raw = .ok ⟨[], t.opened⟩ := by
    by_cases hk : raw.kind = .lineBreak
    · exact t.effect_of_lineBreak hk
    · rw [t.effect_of_content hk hend, hpasses.resolve_left hk]
      rfl
  exact pull_of_effect_nil (s := Tracked.mk t source) hi hpull heffect rfl

/-- A token that is repeated for ever passes for ever, within a line or as a line break. -/
theorem reply_of_repeated {t : Tracker} (hi : t.Idle) {raw : Token} (hend : raw.isEnd = false)
    (hpasses : raw.kind = .lineBreak ∨ t.atLineStart = false) {source : σ}
    (hraw : ∀ m, (TokenSource.pull (after m source)).1 = .ok raw) (m : ℕ) :
    (TokenSource.pull (after m (Tracked.mk t source))).1 = .ok raw := by
  induction m generalizing t source with
  | zero => exact congrArg Prod.fst (pull_of_repeated hi hend hpasses (Prod.ext (hraw 0) rfl))
  | succ m ih =>
      have hlater : raw.kind = .lineBreak ∨ (t.settle raw ⟨[], t.opened⟩).atLineStart = false := by
        by_cases hk : raw.kind = .lineBreak
        · exact Or.inl hk
        · exact Or.inr (t.lineStartAfter_of_content hk hend)
      have hpull : TokenSource.pull (Tracked.mk t source) = _ :=
        pull_of_repeated hi hend hpasses (Prod.ext (hraw 0) rfl)
      rw [after, hpull]
      exact ih (hi.settle hend _) hlater fun k => hraw (k + 1)

/-- Over tokens that hold no end token and repeat the last of them for ever, the tracker comes to refuse a line
or to repeat that token. -/
theorem exists_settlesAt_of_repeated {t : Tracker} (hi : t.Idle) {source : σ} {raws : List Token} {raw : Token}
    (hraws : replies (raws ++ [raw]).length source = (raws ++ [raw]).map .ok)
    (hend : ∀ u ∈ raws ++ [raw], u.isEnd = false)
    (hlast : ∀ m, (TokenSource.pull (after (raws.length + m) source)).1 = .ok raw) :
    ∃ n ≤ 3 * (raws.length + 1) + t.opened.length, SettlesAt n (Tracked.mk t source) := by
  rcases Tracker.run_or_refused hi (raws ++ [raw]) hend with
    ⟨out, t', hrun⟩ | ⟨before, refused, later, out, t', d, heq, hrun, hd⟩
  · have hlength := hrun.length_le
    rw [List.length_append, List.length_singleton] at hlength
    have hpasses : raw.kind = .lineBreak ∨ t'.atLineStart = false := by
      obtain ⟨_, _, u, -, -, hfinal⟩ := hrun.split
      cases hfinal with
      | cons _ _ hnil =>
          cases hnil
          by_cases hk : raw.kind = .lineBreak
          · exact Or.inl hk
          · exact Or.inr (u.lineStartAfter_of_content hk (hend raw (by simp)))
    have hlater (m : ℕ) : (TokenSource.pull (after m (after (raws ++ [raw]).length source))).1 = .ok raw := by
      rw [← after_add, List.length_append, List.length_singleton, Nat.add_assoc]
      exact hlast (1 + m)
    have hsame := reply_of_repeated (hrun.idle hi hend) (hend raw (by simp)) hpasses hlater
    have hafter := (replies_run hrun hraws).2
    refine ⟨out.length, by omega, Or.inr fun m => ?_⟩
    rw [after_add, hafter, hsame m]
    exact (hsame 0).symm
  · have hlength := hrun.length_le
    have hbefore : before.length + (later.length + 1) = raws.length + 1 := by
      simpa using (congrArg List.length heq).symm
    rw [heq, List.map_append, List.map_cons] at hraws
    obtain ⟨hreplies, hpull⟩ := replies_eq_append hraws
    rw [List.length_map] at hreplies hpull
    have hidle := hrun.idle hi fun u hu => hend u (heq ▸ by simp [hu])
    refine ⟨out.length, by omega, Or.inl ?_⟩
    rw [(replies_run hrun hreplies).2]
    have hrefused := pull_of_refused (s := Tracked.mk t' (after before.length source)) hidle
      (Prod.ext hpull rfl) hd
    exact congrArg (fun p => p.1.stops) hrefused

theorem exists_tokens {rs : List (Reply ε)} (h : ∀ r ∈ rs, r.stops = false) :
    ∃ ts : List Token, rs = ts.map .ok ∧ ∀ t ∈ ts, t.isEnd = false := by
  obtain ⟨ts, hend, rfl | ⟨e, later, rfl⟩⟩ := exists_tokens_before_error rs fun t ht => h (.ok t) ht
  · exact ⟨ts, rfl, hend⟩
  · cases h (.error e) (by simp)

/-- With nothing waiting, the tracker settles within a few pulls for each one within which its source does. -/
theorem exists_settlesAt_of_idle {t : Tracker} (hi : t.Idle) {source : σ} {n : ℕ} (h : SettlesAt n source) :
    ∃ k ≤ 3 * (n + 1) + t.opened.length, SettlesAt k (Tracked.mk t source) := by
  by_cases hstops : ∃ r ∈ replies (n + 1) source, r.stops = true
  · obtain ⟨raws, r, source', hreads, hlength⟩ := exists_reads hstops
    obtain ⟨out, q, s', -, htracked, hout⟩ := exists_reading hi hreads
    refine ⟨out.length, by omega, Or.inl ?_⟩
    have hlast : (TokenSource.pull (after out.length (Tracked.mk t source))).1 = q := by
      have hget := getElem?_replies (Nat.lt_succ_self out.length) (Tracked.mk t source)
      rw [htracked.replies_eq] at hget
      simpa using hget.symm
    rw [hlast]
    exact htracked.stops_eq_true
  · simp only [not_exists, not_and, Bool.not_eq_true] at hstops
    obtain ⟨ts, hts, hend⟩ := exists_tokens hstops
    have hlength : ts.length = n + 1 := by simpa using (congrArg List.length hts).symm
    rcases List.eq_nil_or_concat ts with rfl | ⟨raws, raw, hconcat⟩
    · simp at hlength
    · obtain rfl : ts = raws ++ [raw] := by rw [hconcat, List.concat_eq_append]
      have hraws : raws.length = n := by simpa using hlength
      subst hraws
      have hraw : (TokenSource.pull (after raws.length source)).1 = .ok raw := by
        have hget := getElem?_replies (Nat.lt_succ_self raws.length) source
        rw [hts] at hget
        simpa using hget.symm
      have hsame : ∀ m, (TokenSource.pull (after (raws.length + m) source)).1 = .ok raw := by
        rcases h with hstop | hsame
        · rw [hraw] at hstop
          have hraw := hend raw (by simp)
          simp [Reply.stops, hraw] at hstop
        · exact fun m => (hsame m).trans hraw
      exact exists_settlesAt_of_repeated hi (by simpa using hts) hend hsame

theorem exists_settlesAt_of_pending_eq_nil [Settling σ] {t : Tracker} (hp : t.pending = []) (source : σ) :
    ∃ n ≤ 3 * TokenSource.horizon source + t.opened.length, SettlesAt n (Tracked.mk t source) := by
  cases hs : t.status with
  | failed d => exact ⟨0, Nat.zero_le _, settlesAt_of_fixed (congrArg Prod.snd (pull_of_failed hs))⟩
  | ended final => exact ⟨0, Nat.zero_le _, settlesAt_of_fixed (congrArg Prod.snd (pull_of_ended hs hp))⟩
  | running =>
      obtain ⟨n, hn, hsettles⟩ := Settling.settles_within_horizon source
      obtain ⟨k, hk, hsettles⟩ := exists_settlesAt_of_idle ⟨hs, hp⟩ hsettles
      exact ⟨k, by omega, hsettles⟩

end Tracked

instance {σ : Type u} {ε : Type} [Source σ ε] [Settling σ] : Settling (Tracked σ) where
  settles_within_horizon := by
    rintro ⟨t, source⟩
    have hhorizon : horizon (Tracked.mk t source) =
        t.pending.length + t.opened.length + 3 * horizon source + 1 := rfl
    by_cases hf : ∃ d, t.status = .failed d
    · obtain ⟨d, hd⟩ := hf
      exact ⟨0, by omega, settlesAt_of_fixed (congrArg Prod.snd (Tracked.pull_of_failed hd))⟩
    · simp only [not_exists] at hf
      rcases Tracked.settles_or_empties t source hf with ⟨n, hn, hsettles⟩ | hempty
      · exact ⟨n, by omega, hsettles⟩
      · obtain ⟨n, hn, hsettles⟩ :=
          Tracked.exists_settlesAt_of_pending_eq_nil (t := { t with pending := [] }) rfl source
        have hn : n ≤ 3 * horizon source + t.opened.length := hn
        exact ⟨t.pending.length + n, by omega, SettlesAt.of_after (hempty ▸ hsettles)⟩

end LayoutRule
