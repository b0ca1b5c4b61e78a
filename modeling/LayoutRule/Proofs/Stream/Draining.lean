import LayoutRule.Proofs.Source.Horizon
import LayoutRule.Proofs.Source.Trace
import LayoutRule.Sample
import LayoutRule.Stream.Iteration

/-! # Draining

A source can be drained by collecting an iteration over it, by filling a buffer from it, and by pulling in a loop up
to the end token. All three stop at the same pull, and none of them goes on to the source behind it. -/

namespace LayoutRule

open TokenSource

universe u

/-! ### Counting pulls -/

/-- A source that remembers what it has answered. -/
structure Recorded (σ : Type u) (ε : Type) where
  source : σ
  answered : List (Reply ε)

namespace Recorded

def start {σ : Type u} {ε : Type} [Source σ ε] (source : σ) : Recorded σ ε := ⟨source, []⟩

variable {σ : Type u} {ε : Type} [Source σ ε]

instance : Source (Recorded σ ε) ε where
  pull s := ((pull s.source).1, ⟨(pull s.source).2, s.answered ++ [(pull s.source).1]⟩)
  horizon s := horizon s.source

theorem pull_eq (s : σ) (before : List (Reply ε)) :
    pull (Recorded.mk s before) = ((pull s).1, ⟨(pull s).2, before ++ [(pull s).1]⟩) := rfl

theorem replies_eq (n : ℕ) (s : σ) (before : List (Reply ε)) : replies n (Recorded.mk s before) = replies n s := by
  induction n generalizing s before with
  | zero => rfl
  | succ n ih => rw [replies, pull_eq, ih, replies]

/-- There is one answer for each pull. -/
theorem after_eq (n : ℕ) (s : σ) (before : List (Reply ε)) :
    after n (Recorded.mk s before) = ⟨after n s, before ++ replies n s⟩ := by
  induction n generalizing s before with
  | zero => simp [after, replies]
  | succ n ih => rw [after, pull_eq, ih, after, replies, List.append_assoc, List.singleton_append]

end Recorded

/-- What is read of a source is read of its record as well. -/
theorem TokenSource.Reads.recorded {σ : Type u} {ε : Type} [Source σ ε] {s s' : σ} {ts : List Token} {r : Reply ε}
    (h : Reads s ts r s') : Reads (Recorded.start s) ts r ⟨s', replies (ts.length + 1) s⟩ := by
  have hreplies : replies (ts.length + 1) (Recorded.start s) = ts.map .ok ++ [r] :=
    (Recorded.replies_eq _ s []).trans h.replies_eq
  have hafter : after (ts.length + 1) (Recorded.start s) = ⟨s', replies (ts.length + 1) s⟩ := by
    rw [Recorded.start, Recorded.after_eq, h.after_eq, List.nil_append]
  rw [← hafter]
  exact reads_of_replies hreplies h.isEnd_eq_false h.stops_eq_true

variable {σ : Type u} {ε : Type} [Source σ ε]

/-- Within its horizon a source that stops at all can be read. -/
theorem TokenSource.Stops.exists_reads [Timely σ] {s : σ} (h : Stops s) :
    ∃ ts r s', Reads s ts r s' ∧ ts.length < horizon s := by
  obtain ⟨n, hn, hstop⟩ := Timely.stops_within_horizon s h
  exact TokenSource.exists_reads ⟨_, List.mem_of_getElem? (getElem?_replies hn s), hstop⟩

namespace TokenIteration

/-! ### Collecting an iteration -/

theorem next?_of_finished (s : σ) : (TokenIteration.mk s true).next? = (none, ⟨s, true⟩) := rfl

theorem next?_start (s : σ) : (start s).next? = (some (pull s).1, ⟨(pull s).2, (pull s).1.stops⟩) := rfl

/-- A finished iteration gives nothing and leaves its source alone. -/
theorem run_of_finished (n : ℕ) (s : σ) :
    (TokenIteration.mk s true).run n = (List.replicate n none, ⟨s, true⟩) := by
  induction n with
  | zero => rfl
  | succ n ih => rw [run_succ, next?_of_finished, ih, List.replicate_succ]

/-- With a step for each token, one for the reply at which the source stops, and one for the end of the iteration,
the whole reading is collected. -/
theorem collectWithin_of_reads {n : ℕ} {s s' : σ} {ts : List Token} {r : Reply ε} (h : Reads s ts r s')
    (hn : ts.length + 1 < n) : (start s).collectWithin n = (r.map fun t => ts ++ [t], ⟨s', true⟩) := by
  induction h generalizing n with
  | @stop s r s' hp hr =>
      obtain ⟨n, rfl⟩ := Nat.exists_eq_add_of_le' hn
      have hnext : (start s).next? = (some r, ⟨s', true⟩) := by rw [next?_start, hp, hr]
      cases r with
      | error e => simp [collectWithin, hnext, Except.map]
      | ok t => simp [collectWithin, hnext, next?_of_finished, Except.map]
  | @token s t s' ts r s'' hp ht _ ih =>
      cases n with
      | zero => simp at hn
      | succ n =>
          have hnext : (start s).next? = (some (.ok t), start s') := by
            rw [next?_start, hp]
            simp [Reply.stops, ht, start]
          have hrest := ih (n := n) (by simpa using hn)
          cases r <;> simp [collectWithin, hnext, hrest, Except.map]

end TokenIteration

/-- The three ways of draining a source give one result and leave the source in one state, and then an iteration that
has been collected gives nothing more and does not pull. -/
structure Drains (s : σ) (result : Except (SourceError ε) (List Token)) (drained : σ) : Prop where
  iteration_eq : (TokenIteration.start s).collect = (result, ⟨drained, true⟩)
  buffer_eq : collect s = (result, drained)
  loop_eq : drainWithin (horizon s) s = (result, drained)
  silent : ∀ n, (TokenIteration.mk drained true).run n = (List.replicate n none, ⟨drained, true⟩)

theorem TokenSource.Reads.drains {s s' : σ} {ts : List Token} {r : Reply ε} (h : Reads s ts r s')
    (hn : ts.length < horizon s) : Drains s (r.map fun t => ts ++ [t]) s' where
  iteration_eq := TokenIteration.collectWithin_of_reads h (Nat.succ_lt_succ hn)
  buffer_eq := collect_of_reads h hn
  loop_eq := h.drainWithin hn
  silent := fun n => TokenIteration.run_of_finished n s'

/-! ### Iterations one after another -/

/-- What an iteration of `n` steps sees of the replies of its source: one a step, up to the first end token or
error. -/
structure Sees (n : ℕ) (seen : List (Reply ε)) : Prop where
  length_le : seen.length ≤ n
  goes_on : ∀ r ∈ seen.dropLast, r.stops = false
  all_or_stopped : seen.length = n ∨ ∃ r ∈ seen.getLast?, r.stops = true

/-- The outcomes of `n` steps: the replies that are seen, and then nothing. -/
def outcomes (n : ℕ) (seen : List (Reply ε)) : List (Option (Reply ε)) :=
  seen.map some ++ List.replicate (n - seen.length) none

theorem Sees.zero : Sees 0 ([] : List (Reply ε)) := ⟨le_rfl, by simp, Or.inl rfl⟩

theorem Sees.stop (n : ℕ) {r : Reply ε} (hr : r.stops = true) : Sees (n + 1) [r] :=
  ⟨Nat.succ_le_succ (Nat.zero_le n), by simp, Or.inr ⟨r, by simp, hr⟩⟩

theorem Sees.cons {n : ℕ} {r : Reply ε} {seen : List (Reply ε)} (hr : r.stops = false) (h : Sees n seen) :
    Sees (n + 1) (r :: seen) := by
  refine ⟨Nat.succ_le_succ h.length_le, ?_, ?_⟩
  · intro q hq
    cases seen with
    | nil => simp at hq
    | cons q' seen =>
        rw [List.dropLast_cons_of_ne_nil (by simp)] at hq
        rcases List.mem_cons.mp hq with hq | hq
        · rw [hq, hr]
        · exact h.goes_on q hq
  · rcases h.all_or_stopped with hall | ⟨q, hq, hstops⟩
    · exact Or.inl (by simp [hall])
    · refine Or.inr ⟨q, ?_, hstops⟩
      cases seen with
      | nil => simp at hq
      | cons q' seen => simpa using hq

/-- An iteration sees the first replies of its source and leaves the source behind them. -/
theorem TokenIteration.exists_run_start (n : ℕ) (s : σ) :
    ∃ seen, Sees n seen ∧ seen = replies seen.length s ∧ ((start s).run n).1 = outcomes n seen ∧
      ((start s).run n).2.source = after seen.length s := by
  induction n generalizing s with
  | zero => exact ⟨[], Sees.zero, rfl, rfl, rfl⟩
  | succ n ih =>
      by_cases hr : (pull s).1.stops = true
      · refine ⟨[(pull s).1], Sees.stop n hr, rfl, ?_, ?_⟩
        · simp [run_succ, next?_start, hr, run_of_finished, outcomes]
        · simp [run_succ, next?_start, hr, run_of_finished, after]
      · have hr : (pull s).1.stops = false := by simpa using hr
        obtain ⟨seen, hsees, hreplies, houtcomes, hsource⟩ := ih (pull s).2
        have hnext : (start s).next? = (some (pull s).1, start (pull s).2) := by rw [next?_start, hr, start]
        refine ⟨(pull s).1 :: seen, hsees.cons hr, ?_, ?_, ?_⟩
        · rw [List.length_cons, replies, ← hreplies]
        · simp [run_succ, hnext, houtcomes, outcomes]
        · rw [run_succ, hnext]
          exact hsource

/-- Iterations one after another see the replies of the source in order. -/
theorem TokenIteration.exists_relay (counts : List ℕ) (s : σ) :
    ∃ seen, List.Forall₂ Sees counts seen ∧ seen.flatten = replies seen.flatten.length s ∧
      relay counts s = (List.zipWith outcomes counts seen, after seen.flatten.length s) := by
  induction counts generalizing s with
  | nil => exact ⟨[], .nil, rfl, rfl⟩
  | cons n counts ih =>
      obtain ⟨first, hfirst, hreplies, houtcomes, hsource⟩ := exists_run_start n s
      obtain ⟨later, hlater, hflatten, hrelay⟩ := ih (after first.length s)
      refine ⟨first :: later, .cons hfirst hlater, ?_, ?_⟩
      · rw [List.flatten_cons, List.length_append, replies_add, ← hreplies, ← hflatten]
      · rw [relay_cons, houtcomes, hsource, hrelay, List.zipWith_cons_cons, List.flatten_cons, List.length_append,
          after_add]

namespace Recorded

/-- An iteration does not depend on the record that its source keeps. -/
theorem run_source (n : ℕ) (s : Recorded σ ε) (finished : Bool) :
    (TokenIteration.mk s.source finished).run n =
      (((TokenIteration.mk s finished).run n).1,
        ⟨((TokenIteration.mk s finished).run n).2.source.source, ((TokenIteration.mk s finished).run n).2.finished⟩) := by
  induction n generalizing s finished with
  | zero => rfl
  | succ n ih =>
      cases finished with
      | true => rw [TokenIteration.run_of_finished, TokenIteration.run_of_finished]
      | false =>
          have hpull : pull s = ((pull s.source).1, ⟨(pull s.source).2, s.answered ++ [(pull s.source).1]⟩) :=
            pull_eq s.source s.answered
          have hrest := ih (pull s).2 (pull s).1.stops
          rw [hpull] at hrest
          rw [TokenIteration.run_succ, TokenIteration.run_succ]
          simp only [TokenIteration.next?, Bool.false_eq_true, ite_false, hpull, hrest]

theorem relay_source (counts : List ℕ) (s : Recorded σ ε) :
    TokenIteration.relay counts s.source =
      ((TokenIteration.relay counts s).1, (TokenIteration.relay counts s).2.source) := by
  induction counts generalizing s with
  | nil => rfl
  | cons n counts ih =>
      have hrun : (TokenIteration.start s.source).run n = _ := run_source n s false
      rw [TokenIteration.relay_cons, TokenIteration.relay_cons, hrun, ih]
      rfl

end Recorded

/-- Let a source come to an end token or an error: a prepared source, the scanner, or trackers in any number before
one of these. Collecting an iteration over it, filling a buffer from it and pulling in a loop up to the end token give
the same tokens or the same first error. Each of them pulls the source up to that end token or error and no further:
as its record shows, once for each token before it and once more. After that the iteration gives nothing for ever and
does not pull. And for any source, iterations one after another, however many steps each of them makes, see the
replies of the source in order, with none left out and none seen twice, and pull it for these replies only. -/
theorem ways_of_draining_agree [Timely σ] (s : σ) :
    (Stops s → ∃ ts r drained, Reads s ts r drained ∧
        Drains s (r.map fun t => ts ++ [t]) drained ∧
        Drains (Recorded.start s) (r.map fun t => ts ++ [t]) ⟨drained, replies (ts.length + 1) s⟩) ∧
      ∀ counts, ∃ seen, List.Forall₂ Sees counts seen ∧ seen.flatten = replies seen.flatten.length s ∧
        TokenIteration.relay counts s = (List.zipWith outcomes counts seen, after seen.flatten.length s) ∧
        TokenIteration.relay counts (Recorded.start s) =
          (List.zipWith outcomes counts seen, ⟨after seen.flatten.length s, replies seen.flatten.length s⟩) := by
  constructor
  · intro hstops
    obtain ⟨ts, r, drained, hreads, hlength⟩ := hstops.exists_reads
    exact ⟨ts, r, drained, hreads, hreads.drains hlength, hreads.recorded.drains hlength⟩
  · intro counts
    obtain ⟨seen, hsees, hflatten, hrelay⟩ := TokenIteration.exists_relay counts (Recorded.start s)
    have hafter : after seen.flatten.length (Recorded.start s) =
        ⟨after seen.flatten.length s, replies seen.flatten.length s⟩ :=
      Recorded.after_eq _ s []
    have hplain := Recorded.relay_source counts (Recorded.start s)
    rw [hafter] at hrelay
    rw [hrelay] at hplain
    exact ⟨seen, hsees, hflatten.trans (Recorded.replies_eq _ s []), hplain, hrelay⟩

/-- A source that goes on behind a failure and behind its end token, with two trackers before it. The failure ends a
draining with the third pull. Of four iterations the second stops at the failure, the third takes up behind it and
stops at the end token, and the last one gets what the outer tracker answers behind that. -/
theorem ways_of_draining_agree_interrupted :
    let failure : LexError := .unexpectedCharacter 2 0 "?"
    let final := Token.endOfInput 3 0 10
    let lines := (Sample.linesAt [0, 4]).dropLast.map Except.ok
    let script := Script.mk (lines.take 2 ++ .error failure :: lines.drop 2 ++ [.ok final]) (.error failure)
    let source := Tracked.start .strict (Tracked.start .lenient script)
    Stops source ∧
      (∃ drained, Drains source (.error failure) drained ∧
        Drains (Recorded.start source) (.error failure) ⟨drained, replies 3 source⟩) ∧
      ∃ seen, List.Forall₂ Sees [2, 5, 9, 1] seen ∧ seen.flatten = replies 9 source ∧
        TokenIteration.relay [2, 5, 9, 1] source = (List.zipWith outcomes [2, 5, 9, 1] seen, after 9 source) := by
  intro failure final lines script source
  have hstops : Stops source := ⟨2, by decide +kernel⟩
  obtain ⟨hdrains, hrelays⟩ := ways_of_draining_agree source
  refine ⟨hstops, ?_, ?_⟩
  · obtain ⟨ts, r, drained, hreads, hplain, hrecorded⟩ := hdrains hstops
    have hresult : (collect source).1 = .error failure := rfl
    rw [hplain.buffer_eq] at hresult
    have hlength : (collect (Recorded.start source)).2.answered.length = 3 := by decide +kernel
    rw [hrecorded.buffer_eq, length_replies] at hlength
    have hresult : r.map (fun t => ts ++ [t]) = .error failure := hresult
    rw [hresult] at hplain hrecorded
    rw [hlength] at hrecorded
    exact ⟨drained, hplain, hrecorded⟩
  · obtain ⟨seen, hsees, hflatten, hrelay, hrecorded⟩ := hrelays [2, 5, 9, 1]
    have hlength : (TokenIteration.relay [2, 5, 9, 1] (Recorded.start source)).2.answered.length = 9 := by
      decide +kernel
    rw [hrecorded, length_replies] at hlength
    rw [hlength] at hflatten hrelay
    exact ⟨seen, hsees, hflatten, hrelay⟩

end LayoutRule
