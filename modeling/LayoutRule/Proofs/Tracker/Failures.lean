import LayoutRule.Proofs.Tracker.Balance
import LayoutRule.Proofs.Tracker.Demand

/-! # Failures of the source

A pull that comes upon a failure of the source hands it on and leaves the tracker alone, so what the tracker
makes of the other items is what it makes of them over a source that never fails. -/

namespace LayoutRule

open TokenSource

universe u v

variable {σ : Type u} {ε : Type} [Source σ ε] {τ : Type v} [Source τ ε]

/-- The error that a reply is. -/
def Reply.error? : Reply ε → Option (SourceError ε)
  | .error e => some e
  | .ok _ => none

/-! ### Sources without their failures -/

/-- One source hands out what another one hands out apart from its failures. -/
def Clears (cleared : τ) (source : σ) : Prop :=
  ∀ n, replies ((replies n source).countP (·.isOk)) cleared = (replies n source).filter (·.isOk)

namespace Clears

theorem of_error {cleared : τ} {source source' : σ} {e : SourceError ε} (h : Clears cleared source)
    (hpull : pull source = (.error e, source')) : Clears cleared source' := by
  intro n
  have hnext := h (n + 1)
  simpa [replies, hpull, Except.isOk, Except.toBool] using hnext

theorem of_ok {cleared : τ} {source source' : σ} {raw : Token} (h : Clears cleared source)
    (hpull : pull source = (.ok raw, source')) :
    ∃ cleared', pull cleared = (.ok raw, cleared') ∧ Clears cleared' source' := by
  have hfirst : (pull cleared).1 = .ok raw := by
    simpa [replies, hpull, Except.isOk, Except.toBool] using h 1
  refine ⟨(pull cleared).2, Prod.ext hfirst rfl, ?_⟩
  intro n
  have hnext := h (n + 1)
  simp only [replies, hpull, Except.isOk, Except.toBool, List.countP_cons_of_pos,
    List.filter_cons_of_pos, hfirst, List.cons.injEq, true_and] at hnext
  exact hnext

end Clears

theorem Script.replies_last (n : ℕ) (last : Reply ε) :
    replies n (Script.mk [] last) = List.replicate n last := by
  induction n with
  | zero => rfl
  | succ n ih => exact congrArg (last :: ·) ih

/-- A script is cleared entry by entry. What stands behind it counts only if its last entry is a token. -/
theorem Script.clears (upcoming : List (Reply ε)) {last final : Reply ε} (h : last.isOk = true → final = last) :
    Clears (Script.mk (upcoming.filter (·.isOk)) final) (Script.mk upcoming last) := by
  induction upcoming with
  | nil =>
      intro n
      rw [Script.replies_last, List.countP_replicate, List.filter_replicate]
      cases hlast : last.isOk with
      | false => rfl
      | true => simp [h hlast, Script.replies_last]
  | cons r upcoming ih =>
      intro n
      cases n with
      | zero => rfl
      | succ n =>
          have hreplies : replies (n + 1) (Script.mk (r :: upcoming) last) =
              r :: replies n (Script.mk upcoming last) := rfl
          rw [hreplies]
          cases hr : r.isOk with
          | false => simpa [hr] using ih n
          | true =>
              simp only [hr, List.countP_cons_of_pos, List.filter_cons_of_pos]
              exact congrArg (r :: ·) (ih n)

namespace Tracked

/-! ### Answers that are failures of the source -/

/-- The failure of the source that the next pull comes upon. -/
def failure? (s : Tracked σ) : Option (SourceError ε) :=
  match s.tracker.ready? ε with
  | some _ => none
  | none => Reply.error? (TokenSource.pull s.source).1

/-- The failures of the source among the next `n` answers. -/
def failures : ℕ → Tracked σ → List (SourceError ε)
  | 0, _ => []
  | n + 1, s => s.failure?.toList ++ failures n s.pull.2

/-- The other ones of the next `n` answers. -/
def kept : ℕ → Tracked σ → List (Reply ε)
  | 0, _ => []
  | n + 1, s => (if s.failure?.isSome then [] else [s.pull.1]) ++ kept n s.pull.2

/-- A failure of the source is the answer, and the tracker stays as it is. -/
theorem pull_of_failure {s : Tracked σ} {e : SourceError ε} (h : s.failure? = some e) :
    s.pull = (.error e, ⟨s.tracker, (TokenSource.pull s.source).2⟩) := by
  unfold failure? at h
  cases hready : s.tracker.ready? ε with
  | some p => simp [hready] at h
  | none =>
      cases hpull : TokenSource.pull s.source with
      | mk r source =>
          cases r with
          | ok raw => simp [hready, hpull, Reply.error?] at h
          | error e' =>
              have heq : e' = e := by simpa [hready, hpull, Reply.error?] using h
              rw [pull_of_error (Tracker.idle_of_ready?_eq_none hready) hpull, heq]

/-- Over the cleared source the other answers come one after another, and the tracker goes the same way. -/
theorem replies_cleared {t : Tracker} {source : σ} {cleared : τ} (h : Clears cleared source) (n : ℕ) :
    replies (kept n ⟨t, source⟩).length (Tracked.mk t cleared) = kept n ⟨t, source⟩ ∧
      (after (kept n ⟨t, source⟩).length (Tracked.mk t cleared)).tracker =
        (after n (Tracked.mk t source)).tracker := by
  induction n generalizing t source cleared with
  | zero => exact ⟨rfl, rfl⟩
  | succ n ih =>
      have hnext : after (n + 1) (Tracked.mk t source) = after n (Tracked.mk t source).pull.2 := rfl
      rw [hnext, kept]
      cases hready : t.ready? ε with
      | some p =>
          have hpull := pull_of_ready (s := Tracked.mk t source) hready
          have hcleared : TokenSource.pull (Tracked.mk t cleared) = _ :=
            pull_of_ready (s := Tracked.mk t cleared) hready
          obtain ⟨hreplies, hafter⟩ := ih (t := p.2) h
          simp [failure?, hready, hpull, replies, after, hcleared, hreplies, hafter]
      | none =>
          cases hpull : TokenSource.pull source with
          | mk r source' =>
              cases r with
              | error e =>
                  have hfails := pull_of_error (s := Tracked.mk t source)
                    (Tracker.idle_of_ready?_eq_none hready) hpull
                  simpa [failure?, hready, hpull, hfails, Reply.error?] using ih (t := t) (h.of_error hpull)
              | ok raw =>
                  obtain ⟨cleared', hsame, hrest⟩ := h.of_ok hpull
                  have htakes := pull_of_raw (s := Tracked.mk t source) hready hpull
                  have hcleared : TokenSource.pull (Tracked.mk t cleared) = _ :=
                    pull_of_raw (s := Tracked.mk t cleared) hready hsame
                  obtain ⟨hreplies, hafter⟩ := ih (t := (t.accept raw : Reply ε × Tracker).2) hrest
                  simp [failure?, hready, hpull, htakes, Reply.error?, replies, after, hcleared, hreplies,
                    hafter]

/-! ### Every failure is reported -/

/-- The failures among the next answers are those that the source has come to. -/
theorem failures_eq_pulled (n : ℕ) (s : Tracked σ) :
    failures n s = (replies (pulled n s) s.source).filterMap Reply.error? := by
  induction n generalizing s with
  | zero => rfl
  | succ n ih =>
      rw [failures, ih, pulled, source_pull, failure?]
      cases hready : s.tracker.ready? ε with
      | some p => simp [after]
      | none =>
          rw [replies_add]
          simp only [replies, after, Option.isNone_none, ite_true, List.filterMap_append, List.filterMap_cons,
            List.filterMap_nil]
          cases Reply.error? (TokenSource.pull s.source).1 <;> rfl

theorem Pulls.failure?_eq {s s' : Tracked σ} {o : Origin} {r : Reply ε} (h : Pulls s o r s') :
    s.failure?.toList = (o.items r).filterMap Reply.error? := by
  cases h with
  | refusedBefore hs => simp [failure?, Tracker.ready?, hs, Origin.items]
  | @endedBefore s final hs hp =>
      cases ha : s.tracker.config.afterEnd <;> simp [failure?, Tracker.ready?, hs, hp, ha, Origin.items]
  | closesMore k hs hp => simp [failure?, Tracker.ready?, hs, hp, List.replicate_succ, Origin.items]
  | delivers hs hp => simp [failure?, Tracker.ready?, hs, hp, Origin.items, Reply.error?]
  | fails hi hpull => simp [failure?, hi.ready?, hpull, Origin.items, Reply.error?]
  | refuses hi hpull => simp [failure?, hi.ready?, hpull, Origin.items, Reply.error?]
  | opens hi hpull => simp [failure?, hi.ready?, hpull, Origin.items, Reply.error?]
  | closes k closed hi hpull => simp [failure?, hi.ready?, hpull, Origin.items, Reply.error?]
  | passes hi hpull => simp [failure?, hi.ready?, hpull, Origin.items, Reply.error?]

theorem failures_eq_items {s : Tracked σ} (hs : s.tracker.Steady) (n : ℕ) :
    failures n s = (items n s).filterMap Reply.error? := by
  induction n generalizing s with
  | zero => rfl
  | succ n ih =>
      have hpulls := pulls_pull hs
      rw [failures, items, List.filterMap_append, hpulls.failure?_eq, ih (hpulls.steady hs)]

/-! ### Markers and their token -/

/-- The source is left alone while tokens wait. -/
theorem pulled_of_waiting (ms : List Token) {raw : Token} (t : Tracker) (hs : t.status = .running)
    (hp : t.pending = ms ++ [raw]) (hms : ∀ m ∈ ms, m.isEnd = false) (source : σ) :
    pulled (ms.length + 1) (Tracked.mk t source) = 0 := by
  induction ms generalizing t with
  | nil => rw [List.length_nil, pulled_of_pending (s := Tracked.mk t source) hp, pulled]
  | cons m ms ih =>
      rw [List.length_cons, pulled_of_pending (s := Tracked.mk t source) hp,
        pull_of_pending (s := Tracked.mk t source) (by simp [hs]) hp]
      refine ih { t with pending := ms ++ [raw], status := _ } ?_ rfl fun m' hm' => hms m' (by simp [hm'])
      simp [hms m (by simp), hs]

/-- Behind a marker come the markers left and the token that they stand before, and the source is left alone
until then. -/
theorem Pulls.rest_of_marker {s s' : Tracked σ} {o : Origin} {r : Reply ε} (h : Pulls s o r s')
    (ho : o = .marker) :
    ∃ (k : ℕ) (raw : Token), (r = .ok raw.blockOpen ∨ r = .ok raw.blockDedent) ∧
      replies (k + 1) s' = (List.replicate k raw.blockDedent ++ [raw]).map .ok ∧ pulled (k + 1) s' = 0 := by
  have hwaiting (k : ℕ) (raw : Token) (t : Tracker) (source : σ) (hs : t.status = .running)
      (hp : t.pending = List.replicate k raw.blockDedent ++ [raw]) :
      replies (k + 1) (Tracked.mk t source) = (List.replicate k raw.blockDedent ++ [raw]).map .ok ∧
        pulled (k + 1) (Tracked.mk t source) = 0 := by
    have hms : ∀ m ∈ List.replicate k raw.blockDedent, m.isEnd = false := by
      intro m hm
      rw [List.eq_of_mem_replicate hm]
      rfl
    have hreplies := (replies_pending _ hms raw t hs hp source).1
    have hpulled := pulled_of_waiting _ t hs hp hms source
    rw [List.length_replicate] at hreplies hpulled
    exact ⟨hreplies, hpulled⟩
  cases h with
  | @closesMore t source raw k hs hp => exact ⟨k, raw, Or.inr rfl, hwaiting k raw _ source hs rfl⟩
  | @opens t source raw source' hi => exact ⟨0, raw, Or.inl rfl, hwaiting 0 raw _ source' hi.running rfl⟩
  | @closes t source raw source' e k closed hi =>
      exact ⟨k, raw, Or.inr rfl, hwaiting k raw _ source' hi.running rfl⟩
  | _ => cases ho

/-! ### Failures behind a line break -/

theorem length_failures_le (n : ℕ) (s : Tracked σ) : (failures n s).length ≤ n := by
  rw [failures_eq_pulled]
  refine (List.length_filterMap_le _ _).trans ?_
  rw [length_replies]
  induction n generalizing s with
  | zero => exact le_rfl
  | succ n ih =>
      have hrest := ih s.pull.2
      rw [pulled]
      split <;> omega

/-- Nothing but failures leaves the tracker as it is. -/
theorem tracker_after_of_failures {s : Tracked σ} {k : ℕ} (h : (failures k s).length = k) :
    (after k s).tracker = s.tracker := by
  induction k generalizing s with
  | zero => rfl
  | succ k ih =>
      rw [failures, List.length_append] at h
      have hrest := length_failures_le k s.pull.2
      cases hfailure : s.failure? with
      | none =>
          simp only [hfailure, Option.toList_none, List.length_nil] at h
          omega
      | some e =>
          have hlater : (failures k s.pull.2).length = k := by
            simp only [hfailure, Option.toList_some, List.length_singleton] at h
            omega
          have hafter : after (k + 1) s = after k s.pull.2 := rfl
          rw [hafter, ih hlater, pull_of_failure hfailure]

/-- A token that is pulled at the start of a line is measured. -/
theorem pull_of_lineStart {s : Tracked σ} (hi : s.tracker.Idle) (hstart : s.tracker.atLineStart = true)
    {first : Token} {source : σ} (hpull : TokenSource.pull s.source = (.ok first, source))
    (hbreak : first.kind ≠ .lineBreak) (hend : first.isEnd = false) :
    s.pull.1 = match s.tracker.measure first with
      | .error d => .error (.raggedDedent d)
      | .ok e => .ok (e.markers.headD first) := by
  have heffect : s.tracker.effect first = s.tracker.measure first := by
    rw [s.tracker.effect_of_content hbreak hend, if_pos hstart]
  cases hmeasure : s.tracker.measure first with
  | error d => rw [pull_of_refused hi hpull (heffect.trans hmeasure)]
  | ok e =>
      cases hm : e.markers with
      | nil =>
          rw [pull_of_effect_nil hi hpull (heffect.trans hmeasure) hm]
          simp [hm]
      | cons m ms =>
          rw [pull_of_effect_cons hi hpull (heffect.trans hmeasure) hm]
          simp [hm]

/-- However many failures come behind a line break, the first token of the next line is measured. -/
theorem measured_behind_failures {s : Tracked σ} {lb first : Token} {k : ℕ} (hready : s.tracker.ready? ε = none)
    (hlb : (TokenSource.pull s.source).1 = .ok lb) (hk : lb.kind = .lineBreak)
    (hfailures : (failures k s.pull.2).length = k)
    (hfirst : (TokenSource.pull (after (k + 1) s).source).1 = .ok first)
    (hbreak : first.kind ≠ .lineBreak) (hend : first.isEnd = false) :
    (after (k + 1) s).tracker = s.pull.2.tracker ∧
      (TokenSource.pull (after (k + 1) s)).1 =
        match s.pull.2.tracker.measure first with
        | .error d => .error (.raggedDedent d)
        | .ok e => .ok (e.markers.headD first) := by
  have hi := Tracker.idle_of_ready?_eq_none hready
  have hnotEnd : lb.isEnd = false := by simp [Token.isEnd, hk]
  have hpull := pull_of_effect_nil hi (Prod.ext hlb rfl) (s.tracker.effect_of_lineBreak hk) rfl
  have htracker : (after (k + 1) s).tracker = s.pull.2.tracker := tracker_after_of_failures hfailures
  have hsettled : s.pull.2.tracker = s.tracker.settle lb ⟨[], s.tracker.opened⟩ := by rw [hpull]
  have hidle : (after (k + 1) s).tracker.Idle := by
    rw [htracker, hsettled]
    exact hi.settle hnotEnd _
  have hstart : (after (k + 1) s).tracker.atLineStart = true := by
    rw [htracker, hsettled]
    exact s.tracker.lineStartAfter_of_lineBreak hk
  refine ⟨htracker, ?_⟩
  rw [← htracker]
  exact pull_of_lineStart hidle hstart (Prod.ext hfirst rfl) hbreak hend

/-! ### Transparency -/

/-- Whatever the source fails with, and wherever, a failure that a pull comes upon is the answer and leaves the
tracker as it is. The other answers are those that the same tracker gives over the source without its failures,
and they leave it in the same state. The items of the source are handed on in order and without a gap, with
every failure among them that the source has come to. From a marker to the token that it stands before the
source is left alone, and failures behind a line break do not keep the first token of the next line from being
measured. -/
theorem failures_are_transparent (config : TrackerConfig) (source : σ) (cleared : τ)
    (hcleared : Clears cleared source) (n : ℕ) :
    let tracked := Tracked.start config source
    let alone := Tracked.start config cleared
    let s := after n tracked
    (∀ e, s.failure? = some e → TokenSource.pull s = (.error e, ⟨s.tracker, (TokenSource.pull s.source).2⟩)) ∧
      (replies (kept n tracked).length alone = kept n tracked ∧
        (after (kept n tracked).length alone).tracker = s.tracker) ∧
      (items n tracked = replies (items n tracked).length source ∧
        failures n tracked = (items n tracked).filterMap Reply.error? ∧
        failures n tracked = (replies (pulled n tracked) source).filterMap Reply.error?) ∧
      (s.origin = .marker → ∃ (k : ℕ) (raw : Token),
        ((TokenSource.pull s).1 = .ok raw.blockOpen ∨ (TokenSource.pull s).1 = .ok raw.blockDedent) ∧
          replies (k + 1) (TokenSource.pull s).2 = (List.replicate k raw.blockDedent ++ [raw]).map .ok ∧
          pulled (k + 1) (TokenSource.pull s).2 = 0) ∧
      ∀ k lb first, s.tracker.ready? ε = none → (TokenSource.pull s.source).1 = .ok lb →
        lb.kind = .lineBreak → (failures k (TokenSource.pull s).2).length = k →
        (TokenSource.pull (after (k + 1) s).source).1 = .ok first → first.kind ≠ .lineBreak →
        first.isEnd = false →
        (after (k + 1) s).tracker = (TokenSource.pull s).2.tracker ∧
          (TokenSource.pull (after (k + 1) s)).1 =
            match (TokenSource.pull s).2.tracker.measure first with
            | .error d => .error (.raggedDedent d)
            | .ok e => .ok (e.markers.headD first) := by
  intro tracked alone s
  have hstart : tracked.tracker.Steady := Tracker.steady_start config
  refine ⟨fun e => pull_of_failure, replies_cleared hcleared n,
    ⟨?_, failures_eq_items hstart n, failures_eq_pulled n tracked⟩, ?_, ?_⟩
  · obtain ⟨k, hk⟩ := items_prefix_replies hstart n
    have hprefix : items n tracked <+: replies k source := by
      simpa [waiting, tracked, Tracked.start, Tracker.start] using hk
    have hle : (items n tracked).length ≤ k := by simpa using hprefix.length_le
    rw [← take_replies hle]
    exact List.prefix_iff_eq_take.mp hprefix
  · exact fun horigin => (pulls_pull (steady_after hstart n)).rest_of_marker horigin
  · intro k lb first hready hlb hk hfailures hfirst hbreak hend
    exact measured_behind_failures hready hlb hk hfailures hfirst hbreak hend

/-- A failure behind every token, also between a line break and the line that opens a block behind it. -/
theorem failures_are_transparent_everywhere :
    let raws := Sample.linesAt [0, 4, 2]
    let failure : Reply := .error (.unexpectedCharacter 2 0 "?")
    let final : Reply := .ok (Token.endOfInput 4 0 17)
    let source := Script.mk (raws.dropLast.flatMap fun raw => [.ok raw, failure]) final
    let cleared := Script.mk (raws.dropLast.map .ok) final
    let tracked := Tracked.start .lenient source
    Clears cleared source ∧ (failures 15 tracked).length = 6 ∧
      replies 9 (Tracked.start .lenient cleared) = kept 15 tracked ∧
      (TokenSource.pull (after 3 tracked)).1 = failure ∧
      (TokenSource.pull (after 4 tracked)).1 = .ok (Sample.nameToken "t2" 2 4 7).blockOpen := by
  intro raws failure final source cleared tracked
  have hclears : Clears cleared source := by
    have hfilter : (raws.dropLast.flatMap fun raw => [.ok raw, failure]).filter (·.isOk) =
        raws.dropLast.map .ok := by decide +kernel
    have hscript : Clears (Script.mk _ final) source := Script.clears _ fun _ => rfl
    rwa [hfilter] at hscript
  obtain ⟨-, ⟨hkept, -⟩, -⟩ := failures_are_transparent .lenient source cleared hclears 15
  obtain ⟨-, -, -, -, hmeasured⟩ := failures_are_transparent .lenient source cleared hclears 2
  have hlength : (kept 15 tracked).length = 9 := by decide +kernel
  rw [hlength] at hkept
  refine ⟨hclears, by decide +kernel, hkept, by decide +kernel, ?_⟩
  have hmeasure : (TokenSource.pull (after 2 tracked)).2.tracker.measure (Sample.nameToken "t2" 2 4 7) =
      .ok ⟨[(Sample.nameToken "t2" 2 4 7).blockOpen], [4]⟩ := by decide +kernel
  have hreply := (hmeasured 1 (Sample.lineBreak 1 2 2) (Sample.nameToken "t2" 2 4 7) (by decide +kernel)
    (by decide +kernel) rfl (by decide +kernel) (by decide +kernel) (by decide +kernel) rfl).2
  rw [hmeasure] at hreply
  rw [after_add 2 2]
  exact hreply

end Tracked

end LayoutRule
