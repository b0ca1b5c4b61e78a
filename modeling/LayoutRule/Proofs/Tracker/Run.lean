import LayoutRule.Proofs.Scanner.Lines
import LayoutRule.Proofs.Tracker.Equations

/-! # Runs of the tracker

A run takes raw tokens one after another, each with the markers that stand before it. Over a source that
hands out those raw tokens, pulling through the tracker hands out exactly the tokens of the run. -/

namespace LayoutRule

open TokenSource

universe u

variable {σ : Type u} {ε : Type} [Source σ ε]

namespace Tracker

/-- From one tracker to another, the raw tokens `raws` are handed out as `out`. -/
inductive Run : Tracker → List Token → List Token → Tracker → Prop where
  | nil {t} : Run t [] [] t
  | cons {t raw raws e out t'} : t.Idle → t.effect raw = .ok e → Run (t.settle raw e) raws out t' →
      Run t (raw :: raws) (e.markers ++ raw :: out) t'

namespace Run

theorem append {t t' t'' : Tracker} {raws raws' out out' : List Token} (h : t.Run raws out t')
    (h' : t'.Run raws' out' t'') : t.Run (raws ++ raws') (out ++ out') t'' := by
  induction h with
  | nil => exact h'
  | cons hi he _ ih =>
      rw [List.cons_append, List.append_assoc, List.cons_append]
      exact .cons hi he (ih h')

/-- A run can be broken off and taken up again behind any of its raw tokens. -/
theorem split {t t'' : Tracker} {raws more out : List Token} (h : t.Run (raws ++ more) out t'') :
    ∃ out₁ out₂ t', out = out₁ ++ out₂ ∧ t.Run raws out₁ t' ∧ t'.Run more out₂ t'' := by
  induction raws generalizing t out with
  | nil => exact ⟨[], out, t, rfl, .nil, h⟩
  | cons raw raws ih =>
      cases h with
      | @cons _ _ _ e _ _ hi he hrest =>
          obtain ⟨out₁, out₂, t', rfl, hfirst, hlater⟩ := ih hrest
          exact ⟨e.markers ++ raw :: out₁, out₂, t', by simp, .cons hi he hfirst, hlater⟩

theorem config_eq {t t' : Tracker} {raws out : List Token} (h : t.Run raws out t') :
    t'.config = t.config := by
  induction h with
  | nil => rfl
  | cons _ _ _ ih => exact ih

theorem idle {t t' : Tracker} {raws out : List Token} (h : t.Run raws out t') (hi : t.Idle)
    (hend : ∀ raw ∈ raws, raw.isEnd = false) : t'.Idle := by
  induction h with
  | nil => exact hi
  | cons hi _ _ ih =>
      exact ih (hi.settle (hend _ (by simp)) _) fun raw hraw => hend raw (by simp [hraw])

theorem isEnd_eq_false {t t' : Tracker} {raws out : List Token} (h : t.Run raws out t')
    (hend : ∀ raw ∈ raws, raw.isEnd = false) : ∀ token ∈ out, token.isEnd = false := by
  induction h with
  | nil => simp
  | cons _ he _ ih =>
      intro token htoken
      rcases List.mem_append.mp htoken with hm | hm
      · exact isEnd_of_mem_markers he token hm
      · rcases List.mem_cons.mp hm with rfl | hm
        · exact hend _ (by simp)
        · exact ih (fun raw hraw => hend raw (by simp [hraw])) token hm

/-- Without markers a run hands out its raw tokens. -/
theorem filter_isSynthetic {t t' : Tracker} {raws out : List Token} (h : t.Run raws out t') :
    out.filter (!·.kind.isSynthetic) = raws.filter (!·.kind.isSynthetic) := by
  induction h with
  | nil => rfl
  | @cons t raw raws e out t' _ he _ ih =>
      have hmarkers : e.markers.filter (!·.kind.isSynthetic) = [] := by
        apply List.filter_eq_nil_iff.mpr
        intro m hm
        simp [isSynthetic_of_mem_markers he m hm]
      rw [List.filter_append, hmarkers, List.nil_append, List.filter_cons, ih, List.filter_cons]

/-- Raw tokens without markers among them are what a run hands out without its own. -/
theorem filter_isSynthetic_eq_raws {t t' : Tracker} {raws out : List Token} (h : t.Run raws out t')
    (hraw : ∀ raw ∈ raws, raw.kind.isSynthetic = false) : out.filter (!·.kind.isSynthetic) = raws := by
  rw [h.filter_isSynthetic, List.filter_eq_self]
  intro raw hmem
  simp [hraw raw hmem]

/-- Each raw token opens at most one column, and a column is closed at most once. -/
theorem length_le {t t' : Tracker} {raws out : List Token} (h : t.Run raws out t') :
    out.length + t'.opened.length ≤ 3 * raws.length + t.opened.length := by
  induction h with
  | nil => simp
  | @cons t raw raws e out t' _ he _ ih =>
      have hstep : e.markers.length + e.opened.length ≤ t.opened.length + 2 := by
        rcases effect_eq_ok he with ⟨-, rfl⟩ | ⟨closed, hopened, hmarkers⟩
        · simp only [List.length_cons, List.length_nil]
          omega
        · simp only [hmarkers, hopened, List.length_replicate, List.length_append]
          omega
      simp only [settle] at ih
      simp only [List.length_append, List.length_cons]
      omega

end Run

/-- Raw tokens within a source are taken to their end, or up to a line that is refused. -/
theorem run_or_refused {t : Tracker} (hi : t.Idle) (raws : List Token)
    (hend : ∀ raw ∈ raws, raw.isEnd = false) :
    (∃ out t', t.Run raws out t') ∨
      ∃ before raw after out t' d, raws = before ++ raw :: after ∧ t.Run before out t' ∧
        t'.effect raw = .error d := by
  induction raws generalizing t with
  | nil => exact Or.inl ⟨[], t, .nil⟩
  | cons raw raws ih =>
      cases he : t.effect raw with
      | error d => exact Or.inr ⟨[], raw, raws, [], t, d, rfl, .nil, he⟩
      | ok e =>
          have hsettle := hi.settle (hend raw (by simp)) e
          rcases ih hsettle fun r hr => hend r (by simp [hr]) with
            ⟨out, t', hrun⟩ | ⟨before, bad, after, out, t', d, rfl, hrun, hbad⟩
          · exact Or.inl ⟨_, t', .cons hi he hrun⟩
          · exact Or.inr ⟨raw :: before, bad, after, _, t', d, rfl, .cons hi he hrun, hbad⟩

end Tracker

namespace Tracked

open Tracker

/-! ### Pulling through a run -/

/-- Waiting tokens are handed out in order, without a pull of the source. -/
theorem replies_pending (ms : List Token) (hms : ∀ m ∈ ms, m.isEnd = false) (raw : Token) (t : Tracker)
    (hs : t.status = .running) (hp : t.pending = ms ++ [raw]) (source : σ) :
    replies (ms.length + 1) (Tracked.mk t source) = (ms ++ [raw]).map .ok ∧
      after (ms.length + 1) (Tracked.mk t source) =
        ⟨{ t with pending := [], status := if raw.isEnd then .ended raw else t.status }, source⟩ := by
  induction ms generalizing t with
  | nil =>
      have hpull := pull_of_pending (s := ⟨t, source⟩) (by simp [hs]) hp
      have hpull : TokenSource.pull (Tracked.mk t source) = _ := hpull
      simp [replies, after, hpull]
  | cons m ms ih =>
      have hpull := pull_of_pending (s := ⟨t, source⟩) (by simp [hs]) hp
      have hpull : TokenSource.pull (Tracked.mk t source) = _ := hpull
      have hm : m.isEnd = false := hms m (by simp)
      obtain ⟨hreplies, hafter⟩ := ih (fun m' hm' => hms m' (by simp [hm']))
        { t with pending := ms ++ [raw] } hs rfl
      simp only [List.length_cons, replies, after, hpull, hm] at hreplies hafter ⊢
      simp [hreplies, hafter]

/-- A raw token and its markers are handed out in as many pulls. -/
theorem replies_turn {t : Tracker} {raw : Token} {e : Effect} {source source' : σ} (hi : t.Idle)
    (he : t.effect raw = .ok e) (hpull : TokenSource.pull source = (.ok raw, source')) :
    replies (e.markers.length + 1) (Tracked.mk t source) = (e.markers ++ [raw]).map .ok ∧
      after (e.markers.length + 1) (Tracked.mk t source) = ⟨t.settle raw e, source'⟩ := by
  cases hm : e.markers with
  | nil =>
      have hfirst : TokenSource.pull (Tracked.mk t source) = _ :=
        pull_of_effect_nil (s := ⟨t, source⟩) hi hpull he hm
      simp [replies, after, hfirst]
  | cons m ms =>
      have hfirst : TokenSource.pull (Tracked.mk t source) = _ :=
        pull_of_effect_cons (s := ⟨t, source⟩) hi hpull he hm
      have hms : ∀ m' ∈ ms, m'.isEnd = false := fun m' hm' =>
        isEnd_of_mem_markers he m' (by simp [hm, hm'])
      obtain ⟨hreplies, hafter⟩ :=
        replies_pending ms hms raw (t.waiting raw e (ms ++ [raw])) hi.running rfl source'
      refine ⟨?_, ?_⟩
      · rw [List.length_cons, replies, hfirst, hreplies]
        rfl
      · rw [List.length_cons, after, hfirst, hafter]
        rfl

theorem replies_run {t t' : Tracker} {raws out : List Token} (h : t.Run raws out t') {source : σ}
    (hraws : replies raws.length source = raws.map .ok) :
    replies out.length (Tracked.mk t source) = out.map .ok ∧
      after out.length (Tracked.mk t source) = ⟨t', after raws.length source⟩ := by
  induction h generalizing source with
  | nil => exact ⟨rfl, rfl⟩
  | @cons t raw raws e out t' hi he _ ih =>
      cases hpull : TokenSource.pull source with
      | mk r source' =>
          simp only [List.length_cons, replies, hpull, List.map_cons, List.cons.injEq] at hraws
          obtain ⟨rfl, hrest⟩ := hraws
          obtain ⟨hturn, hsettled⟩ := replies_turn hi he hpull
          obtain ⟨hreplies, hafter⟩ := ih hrest
          have hlength : (e.markers ++ raw :: out).length = e.markers.length + 1 + out.length := by
            simp only [List.length_append, List.length_cons]
            omega
          refine ⟨?_, ?_⟩
          · rw [hlength, replies_add, hturn, hsettled, hreplies]
            simp
          · rw [hlength, after_add, hsettled, hafter, List.length_cons, after, hpull]

/-! ### Reading through a tracker -/

/-- What is read through the tracker over raw tokens that stop at a reply: all of their run, or the run up
to the first line that is refused. -/
inductive Reading (t : Tracker) : List Token → Reply ε → List Token → Reply ε → Prop where
  | ended {raws final out t'} : t.Run (raws ++ [final]) (out ++ [final]) t' →
      Reading t raws (.ok final) out (.ok final)
  | failed {raws e out t'} : t.Run raws out t' → Reading t raws (.error e) out (.error e)
  | refused {before raw later r out t' d} : t.Run before out t' → t'.effect raw = .error d →
      Reading t (before ++ raw :: later) r out (.error (.raggedDedent d))

/-- A run, and the reply at which a reader stops behind it, make a reading. -/
theorem reads_of_run {t t' : Tracker} {raws out : List Token} {r : Reply ε} {source : σ}
    (hend : ∀ raw ∈ raws, raw.isEnd = false) (hrun : t.Run raws out t')
    (hraws : replies raws.length source = raws.map .ok)
    (hnext : (Tracked.mk t' (after raws.length source)).pull.1 = r) (hr : r.stops = true) :
    Reads (Tracked.mk t source) out r (after (out.length + 1) (Tracked.mk t source)) := by
  obtain ⟨hout, hafter⟩ := replies_run hrun hraws
  refine reads_of_replies ?_ (hrun.isEnd_eq_false hend) hr
  rw [replies_add, hout, hafter, ← hnext]
  rfl

/-- Replies up to an error: if the run comes that far, the error is passed on. -/
theorem reads_of_error {t t' : Tracker} (hi : t.Idle) {raws out : List Token} (hend : ∀ u ∈ raws, u.isEnd = false)
    (hrun : t.Run raws out t') {source : σ} {n : ℕ} {e : SourceError ε} {more : List (Reply ε)}
    (h : replies n source = raws.map .ok ++ .error e :: more) :
    Reads (Tracked.mk t source) out (.error e) (after (out.length + 1) (Tracked.mk t source)) := by
  obtain ⟨hreplies, hpull⟩ := replies_eq_append h
  rw [List.length_map] at hreplies hpull
  have herror := pull_of_error (s := ⟨t', _⟩) (hrun.idle hi hend) (Prod.ext hpull rfl)
  exact reads_of_run hend hrun hreplies (congrArg Prod.fst herror) rfl

/-- Replies up to the first token of a line that is refused. -/
theorem reads_of_refused {t t' : Tracker} (hi : t.Idle) {raws out : List Token}
    (hend : ∀ u ∈ raws, u.isEnd = false) (hrun : t.Run raws out t') {raw : Token} {d : RaggedDedent}
    (hd : t'.effect raw = .error d) {source : σ} {n : ℕ} {more : List (Reply ε)}
    (h : replies n source = raws.map .ok ++ .ok raw :: more) :
    Reads (Tracked.mk t source) out (.error (.raggedDedent d))
      (after (out.length + 1) (Tracked.mk t source)) := by
  obtain ⟨hreplies, hpull⟩ := replies_eq_append h
  rw [List.length_map] at hreplies hpull
  have hrefused := pull_of_refused (s := ⟨t', _⟩) (hrun.idle hi hend) (Prod.ext hpull rfl) hd
  exact reads_of_run hend hrun hreplies (congrArg Prod.fst hrefused) rfl

private theorem exists_reading_of_run {t t' : Tracker} (hi : t.Idle) {source source' : σ}
    {raws out : List Token} {r : Reply ε} (hrun : t.Run raws out t') (h : Reads source raws r source') :
    ∃ out q s', Reading t raws r out q ∧ Reads (Tracked.mk t source) out q s' ∧
      out.length ≤ 3 * raws.length + t.opened.length := by
  have hwhole : Reads source (raws ++ []) r source' := by simpa using h
  obtain ⟨hraws, hlast⟩ := hwhole.split
  have hidle := hrun.idle hi h.isEnd_eq_false
  have hlength := hrun.length_le
  cases hlast with
  | stop hpull hstops =>
      cases r with
      | error e =>
          have hreads := reads_of_run h.isEnd_eq_false hrun hraws
            (congrArg Prod.fst (pull_of_error (s := ⟨t', _⟩) hidle hpull)) hstops
          exact ⟨out, _, _, .failed hrun, hreads, by omega⟩
      | ok final =>
          have hall := hrun.append (.cons hidle (t'.effect_of_isEnd hstops) .nil)
          rw [← List.append_assoc] at hall
          have hraws' : replies (raws ++ [final]).length source = (raws ++ [final]).map .ok := by
            simpa using h.replies_eq
          refine ⟨_, _, _, .ended hall, reads_of_replies ?_ ?_ hstops, ?_⟩
          · simpa [Nat.add_assoc] using (replies_run hall hraws').1
          · intro token htoken
            rcases List.mem_append.mp htoken with hm | hm
            · exact hrun.isEnd_eq_false h.isEnd_eq_false token hm
            · rw [List.eq_of_mem_replicate hm]
              rfl
          · simp only [List.length_append, List.length_replicate]
            omega

/-- A line is refused in answer to the pull that takes its first token from the source. -/
theorem exists_reading_of_refused {t t' : Tracker} (hi : t.Idle) {source source' : σ}
    {before later out : List Token} {raw : Token} {r : Reply ε} {d : RaggedDedent}
    (hrun : t.Run before out t') (hd : t'.effect raw = .error d)
    (h : Reads source (before ++ raw :: later) r source') :
    ∃ s', Reads (Tracked.mk t source) out (.error (.raggedDedent d)) s' ∧
      s'.source = after (before.length + 1) source := by
  obtain ⟨hraws, hlater⟩ := h.split
  have hend : ∀ u ∈ before, u.isEnd = false := fun u hu => h.isEnd_eq_false u (by simp [hu])
  cases hlater with
  | token hpull _ _ =>
      have hrefused := pull_of_refused (s := ⟨t', _⟩) (hrun.idle hi hend) hpull hd
      refine ⟨_, reads_of_run hend hrun hraws (congrArg Prod.fst hrefused) rfl, ?_⟩
      have hlast : after (out.length + 1) (Tracked.mk t source) =
          (Tracked.mk t' (after before.length source)).pull.2 := by
        rw [after_add, (replies_run hrun hraws).2]
        rfl
      rw [hlast, hrefused, after_add, after, after, hpull]

/-- A reading of the source becomes a reading through the tracker, a few times as long at most. -/
theorem exists_reading {t : Tracker} (hi : t.Idle) {source source' : σ} {raws : List Token} {r : Reply ε}
    (h : Reads source raws r source') :
    ∃ out q s', Reading t raws r out q ∧ Reads (Tracked.mk t source) out q s' ∧
      out.length ≤ 3 * raws.length + t.opened.length := by
  rcases run_or_refused hi raws h.isEnd_eq_false with
    ⟨out, t', hrun⟩ | ⟨before, raw, later, out, t', d, rfl, hrun, hd⟩
  · exact exists_reading_of_run hi hrun h
  · obtain ⟨s', hreads, -⟩ := exists_reading_of_refused hi hrun hd h
    have hlength := hrun.length_le
    refine ⟨out, _, s', .refused hrun hd, hreads, ?_⟩
    simp only [List.length_append, List.length_cons]
    omega

end Tracked

end LayoutRule
