import LayoutRule.Proofs.Tracker.Laziness
import LayoutRule.Proofs.Tracker.Moments

/-! # The end of the input

A tracker takes one end token from its source and then leaves the source alone. All levels are closed at once,
while the markers and the end token behind them are handed out one by one. Only then is the tracker exhausted,
and it stays as it is. -/

namespace LayoutRule

open TokenSource

universe u

variable {σ : Type u} {ε : Type} [Source σ ε]

/-- The answer behind the end token. -/
def ExhaustionPolicy.answer (final : Token) : ExhaustionPolicy → Reply ε
  | .again => .ok final
  | .fail => .error .useAfterEnd

/-- An end token that a source has handed out is handed out ever after. -/
def TokenSource.KeepsEnd (source : σ) : Prop :=
  ∀ n final, (pull (after n source)).1 = .ok final → final.isEnd = true →
    ∀ k, (pull (after (n + k) source)).1 = .ok final

namespace Tracked

theorem Pulls.config_eq {s s' : Tracked σ} {o : Origin} {r : Reply ε} (h : Pulls s o r s') :
    s'.tracker.config = s.tracker.config := by
  cases h <;> rfl

theorem config_after {s : Tracked σ} (hs : s.tracker.Steady) (n : ℕ) :
    (after n s).tracker.config = s.tracker.config := by
  induction n generalizing s with
  | zero => rfl
  | succ n ih =>
      have hpulls := pulls_pull hs
      exact (ih (hpulls.steady hs)).trans hpulls.config_eq

/-! ### The pull that takes the end token -/

/-- The next pull takes the end token from the source. -/
structure TakesEnd (s : Tracked σ) (final : Token) : Prop where
  idle : s.tracker.Idle
  reply_eq : (TokenSource.pull s.source).1 = .ok final
  isEnd : final.isEnd = true

/-- An end token that waits or has been handed out was there before, or has just been taken. -/
theorem Pulls.seenEnd_or {s s' : Tracked σ} {o : Origin} {r : Reply ε} (h : Pulls s o r s')
    (hend : SeenEnd s'.tracker) : SeenEnd s.tracker ∨ ∃ final, TakesEnd s final := by
  cases h with
  | refusedBefore => exact Or.inl hend
  | endedBefore => exact Or.inl hend
  | closesMore k hs hp =>
      left
      simp only [SeenEnd, hp, Tracker.isExhausted, hs] at hend ⊢
      simpa [List.mem_replicate, or_imp, forall_and] using hend
  | @delivers t source raw hs hp =>
      left
      cases hraw : raw.isEnd with
      | true => exact Or.inl ⟨raw, by simp [hp], hraw⟩
      | false => simp [SeenEnd, Tracker.isExhausted, hraw, hs] at hend
  | fails => exact Or.inl hend
  | refuses hi => simp [SeenEnd, Tracker.isExhausted, hi.pending] at hend
  | @opens t source raw source' hi hpull =>
      have hraw : raw.isEnd = true := by
        simpa [SeenEnd, Tracker.isExhausted, Tracker.waiting, hi.running] using hend
      exact Or.inr ⟨raw, hi, by rw [hpull], hraw⟩
  | @closes t source raw source' e k closed hi hpull =>
      have hraw : raw.isEnd = true := by
        simpa [SeenEnd, Tracker.isExhausted, Tracker.waiting, hi.running, List.mem_replicate] using hend
      exact Or.inr ⟨raw, hi, by rw [hpull], hraw⟩
  | @passes t source raw source' e hi hpull =>
      cases hraw : raw.isEnd with
      | true => exact Or.inr ⟨raw, hi, by rw [hpull], hraw⟩
      | false => simp [SeenEnd, Tracker.isExhausted, Tracker.settle, hraw, hi.running] at hend

theorem exists_takesEnd {s : Tracked σ} (hs : s.tracker.Steady) (hnone : ¬SeenEnd s.tracker) {n : ℕ}
    (h : SeenEnd (after n s).tracker) : ∃ m < n, ∃ final, TakesEnd (after m s) final := by
  induction n with
  | zero => exact absurd h hnone
  | succ n ih =>
      have hlast : after (n + 1) s = (after n s).pull.2 := after_add n 1 s
      rw [hlast] at h
      rcases (pulls_pull (steady_after hs n)).seenEnd_or h with hbefore | hnow
      · obtain ⟨m, hm, htakes⟩ := ih hbefore
        exact ⟨m, Nat.lt_succ_of_lt hm, htakes⟩
      · exact ⟨n, Nat.lt_succ_self n, hnow⟩

/-- Once the end token has been taken the source is left alone. -/
theorem pulled_of_seenEnd {s : Tracked σ} (hs : s.tracker.Steady) (h : SeenEnd s.tracker) (n : ℕ) :
    pulled n s = 0 := by
  induction n generalizing s with
  | zero => rfl
  | succ n ih =>
      have hpulls := pulls_pull hs
      have hasks : s.tracker.asks = 0 :=
        (Tracker.asks_eq_zero_iff _).mpr fun hi => not_seenEnd_of_idle hi h
      have hrest := ih (hpulls.steady hs) (hpulls.seenEnd h)
      calc pulled (n + 1) s = s.tracker.asks + pulled n s.pull.2 := by rw [pulled, Tracker.asks_eq ε]
        _ = 0 := by rw [hasks, hrest]

/-! ### From that pull on -/

theorem reply_of_ended {s : Tracked σ} {final : Token} (hs : s.tracker.status = .ended final)
    (hp : s.tracker.pending = []) : (TokenSource.pull s).1 = s.tracker.config.afterEnd.answer final := by
  have hpull : TokenSource.pull s = _ := pull_of_ended hs hp
  rw [hpull]
  cases s.tracker.config.afterEnd <;> rfl

/-- How a tracker comes to its end from here on. The source is pulled once more and not again, and from then on
there is only level 0. The markers that close the other levels come first and then the end token; behind it the
tracker is exhausted, and the policy answers. -/
structure Ends (policy : ExhaustionPolicy) (s : Tracked σ) (final : Token) : Prop where
  source_eq : ∀ k, pulled (k + 1) s = 1 ∧ (after (k + 1) s).source = (TokenSource.pull s.source).2
  levels_eq : ∀ k, (after (k + 1) s).tracker.levels = [0]
  marker : ∀ k < s.tracker.opened.length, (TokenSource.pull (after k s)).1 = .ok final.blockDedent
  delivered : (TokenSource.pull (after s.tracker.opened.length s)).1 = .ok final
  isExhausted_iff : ∀ k, (after k s).tracker.isExhausted = true ↔ s.tracker.opened.length < k
  behind : ∀ k, s.tracker.opened.length < k → (TokenSource.pull (after k s)).1 = policy.answer final

namespace TakesEnd

variable {s : Tracked σ} {final : Token}

/-- All levels are closed in answer to the end token. -/
theorem effect_eq (h : TakesEnd s final) : s.tracker.effect final =
    .ok ⟨List.replicate s.tracker.opened.length final.blockDedent, []⟩ :=
  s.tracker.effect_of_isEnd h.isEnd

/-- The markers and the end token are handed out in as many pulls. -/
theorem replies_eq (h : TakesEnd s final) : replies (s.tracker.opened.length + 1) s =
    (List.replicate s.tracker.opened.length final.blockDedent ++ [final]).map .ok := by
  have hturn := (replies_turn h.idle h.effect_eq (Prod.ext h.reply_eq rfl)).1
  rwa [List.length_replicate] at hturn

theorem after_eq (h : TakesEnd s final) : after (s.tracker.opened.length + 1) s =
    ⟨s.tracker.settle final ⟨List.replicate s.tracker.opened.length final.blockDedent, []⟩,
      (TokenSource.pull s.source).2⟩ := by
  have hturn := (replies_turn h.idle h.effect_eq (Prod.ext h.reply_eq rfl)).2
  rwa [List.length_replicate] at hturn

theorem seenEnd (h : TakesEnd s final) : SeenEnd s.pull.2.tracker := by
  obtain ⟨later, status, hpull, hend⟩ := pull_of_effect h.idle (Prod.ext h.reply_eq rfl) h.effect_eq
  rw [if_pos h.isEnd] at hend
  rw [hpull]
  rcases hend with hwaits | rfl
  · exact Or.inl hwaits
  · exact Or.inr rfl

/-- Behind the end token nothing changes any more. -/
theorem ended_of_lt (h : TakesEnd s final) {k : ℕ} (hk : s.tracker.opened.length < k) :
    (after k s).tracker.status = .ended final ∧ (after k s).tracker.pending = [] := by
  obtain ⟨j, rfl⟩ := Nat.exists_eq_add_of_le (Nat.succ_le_of_lt hk)
  have hended : (after (s.tracker.opened.length + 1) s).tracker.status = .ended final := by
    rw [h.after_eq, Tracker.settle, if_pos h.isEnd]
  have hpending : (after (s.tracker.opened.length + 1) s).tracker.pending = [] := by
    rw [h.after_eq, Tracker.settle]
  rw [Nat.succ_eq_add_one, after_add, after_of_ended hended hpending]
  exact ⟨hended, hpending⟩

/-- The reply behind `k` others, none of which is the end token. -/
theorem reply_of_le (h : TakesEnd s final) {k : ℕ} (hk : k ≤ s.tracker.opened.length) :
    some (TokenSource.pull (after k s)).1 =
      ((List.replicate s.tracker.opened.length final.blockDedent ++ [final])[k]?).map .ok := by
  rw [← getElem?_replies (Nat.lt_succ_of_le hk) s, h.replies_eq, List.getElem?_map]

theorem not_isExhausted_of_le (h : TakesEnd s final) (hs : s.tracker.Steady) {k : ℕ}
    (hk : k ≤ s.tracker.opened.length) : ¬(after k s).tracker.isExhausted = true := by
  rw [isExhausted_after_iff hs, not_or]
  refine ⟨fun he => not_seenEnd_of_idle h.idle (Or.inr he), ?_⟩
  rintro ⟨u, hu, hend⟩
  rw [← take_replies (Nat.le_succ_of_le hk) s, h.replies_eq, ← List.map_take,
    List.take_append_of_le_length (by simpa using hk), List.take_replicate] at hu
  obtain ⟨v, hv, heq⟩ := List.mem_map.mp hu
  obtain rfl := Except.ok.inj heq
  rw [List.eq_of_mem_replicate hv] at hend
  cases hend

theorem ends (h : TakesEnd s final) (hs : s.tracker.Steady) : Ends s.tracker.config.afterEnd s final := by
  refine ⟨fun k => ?_, fun k => ?_, fun k hk => ?_, ?_, fun k => ?_, fun k hk => ?_⟩
  · have hpulled : pulled (k + 1) s = 1 := by
      rw [pulled_of_idle h.idle, pulled_of_seenEnd ((pulls_pull hs).steady hs) h.seenEnd]
    refine ⟨hpulled, ?_⟩
    rw [source_after, hpulled]
    rfl
  · have hopened : (after (k + 1) s).tracker.opened = [] :=
      opened_after_of_seenEnd ((pulls_pull hs).steady hs) h.seenEnd k
    rw [Tracker.levels, hopened, List.reverse_nil]
  · have hreply := h.reply_of_le hk.le
    rw [List.getElem?_append_left (by simpa using hk), List.getElem?_replicate_of_lt hk] at hreply
    exact Option.some.inj hreply
  · have hreply := h.reply_of_le le_rfl
    rw [List.getElem?_append_right (by simp)] at hreply
    simpa using hreply
  · by_cases hk : s.tracker.opened.length < k
    · simp [Tracker.isExhausted, (h.ended_of_lt hk).1, hk]
    · have hnot := h.not_isExhausted_of_le hs (Nat.le_of_not_lt hk)
      exact ⟨fun he => absurd he hnot, fun hlt => absurd hlt hk⟩
  · obtain ⟨hended, hpending⟩ := h.ended_of_lt hk
    rw [reply_of_ended hended hpending, config_after hs]

end TakesEnd

/-! ### The whole run -/

/-- An end token that is handed out has been taken from the source. -/
theorem exists_takesEnd_of_reply {s : Tracked σ} (hs : s.tracker.Steady) (hnone : ¬SeenEnd s.tracker) {n : ℕ}
    {final : Token} (h : (TokenSource.pull (after n s)).1 = .ok final) (hend : final.isEnd = true) :
    ∃ m, TakesEnd (after m s) final ∧ m + (after m s).tracker.opened.length ≤ n := by
  have hlast : .ok final ∈ replies (n + 1) s := by
    rw [replies_add, replies, h]
    simp
  have hexhausted := exhausted_after hs (Or.inr ⟨final, hlast, hend⟩)
  obtain ⟨m, hm, final', htakes⟩ := exists_takesEnd hs hnone (Or.inr hexhausted)
  have hends := htakes.ends (steady_after hs m)
  obtain ⟨k, rfl⟩ := Nat.exists_eq_add_of_le (Nat.le_of_lt_succ hm)
  rw [Nat.add_assoc, after_add, hends.isExhausted_iff] at hexhausted
  rw [after_add] at h
  suffices hsame : final' = final by
    exact ⟨m, hsame ▸ htakes, by omega⟩
  -- the reply is the end token itself, or what the policy answers behind it
  by_cases hk : (after m s).tracker.opened.length < k
  · have hanswer := (hends.behind k hk).symm.trans h
    cases hpolicy : (after m s).tracker.config.afterEnd with
    | again =>
        rw [hpolicy] at hanswer
        exact Except.ok.inj hanswer
    | fail =>
        rw [hpolicy] at hanswer
        cases hanswer
  · obtain rfl : (after m s).tracker.opened.length = k := by omega
    exact Except.ok.inj (hends.delivered.symm.trans h)

/-- Behind an end token that is handed out the tracker and its source stay as they are. -/
theorem unchanged_of_reply {s : Tracked σ} (hs : s.tracker.Steady) (hnone : ¬SeenEnd s.tracker) {n : ℕ}
    {final : Token} (h : (TokenSource.pull (after n s)).1 = .ok final) (hend : final.isEnd = true) (k : ℕ) :
    (TokenSource.pull (after (n + 1 + k) s)).1 = s.tracker.config.afterEnd.answer final ∧
      after (n + 1 + k) s = after (n + 1) s ∧ pulled (n + 1 + k) s = pulled (n + 1) s := by
  obtain ⟨m, htakes, hle⟩ := exists_takesEnd_of_reply hs hnone h hend
  obtain ⟨j, rfl⟩ := Nat.exists_eq_add_of_le (Nat.le_of_add_right_le hle)
  have hj : (after m s).tracker.opened.length < j + 1 := by omega
  obtain ⟨hended, hpending⟩ := htakes.ended_of_lt hj
  rw [← after_add, ← Nat.add_assoc] at hended hpending
  have hseen : SeenEnd (after (m + j + 1) s).tracker := Or.inr (by simp [Tracker.isExhausted, hended])
  have hsame : after (m + j + 1 + k) s = after (m + j + 1) s := by
    rw [after_add, after_of_ended hended hpending]
  refine ⟨?_, hsame, ?_⟩
  · rw [hsame, reply_of_ended hended hpending, config_after hs]
  · rw [pulled_add, pulled_of_seenEnd (steady_after hs _) hseen, Nat.add_zero]

/-- A tracker is exhausted from the first end token on that it hands out, and not before. Once it has taken an end
token from the source it has closed all levels and leaves the source alone, whatever else this would hand out, but
it is not exhausted until the markers and the end token have been handed out. Behind the end token nothing changes
any more, and the policy answers. So a tracker that repeats the end token keeps its end over any source. -/
theorem end_is_final (config : TrackerConfig) (source : σ) :
    let s := Tracked.start config source
    (∀ n, (after n s).tracker.isExhausted = true ↔ ∃ final, .ok final ∈ replies n s ∧ final.isEnd = true) ∧
      (∀ m final, TakesEnd (after m s) final → Ends config.afterEnd (after m s) final) ∧
      (∀ n final, (TokenSource.pull (after n s)).1 = .ok final → final.isEnd = true →
        (∃ m, TakesEnd (after m s) final ∧ m + (after m s).tracker.opened.length ≤ n) ∧
          ∀ k, (TokenSource.pull (after (n + 1 + k) s)).1 = config.afterEnd.answer final ∧
            after (n + 1 + k) s = after (n + 1) s ∧ pulled (n + 1 + k) s = pulled (n + 1) s) ∧
      (config.afterEnd = .again → KeepsEnd s) := by
  intro s
  have hstart : s.tracker.Steady := Tracker.steady_start config
  have hnone : ¬SeenEnd s.tracker := not_seenEnd_of_idle (Tracker.idle_start config)
  refine ⟨fun n => ?_, fun m final htakes => ?_, fun n final h hend => ?_, fun hagain n final h hend k => ?_⟩
  · have hiff := isExhausted_after_iff hstart n
    have hrunning : s.tracker.isExhausted = false := rfl
    simpa only [hrunning, Bool.false_eq_true, false_or] using hiff
  · have hends := htakes.ends (steady_after hstart m)
    rwa [config_after hstart] at hends
  · exact ⟨exists_takesEnd_of_reply hstart hnone h hend, unchanged_of_reply hstart hnone h hend⟩
  · cases k with
    | zero => exact h
    | succ k =>
        have hanswer := (unchanged_of_reply hstart hnone h hend k).1
        have hpolicy : s.tracker.config.afterEnd = .again := hagain
        rwa [hpolicy, Nat.add_assoc, Nat.add_comm 1] at hanswer

/-- The ninth pull takes the end token while two blocks are open. The source would go on with a name. -/
theorem end_is_final_over_restless_source :
    let final := Token.endOfInput 4 0 21
    let source := Script.mk ((Sample.linesAt [0, 4, 8]).map .ok) (.ok (Sample.nameToken "t4" 4 0 21) : Reply)
    let s := Tracked.start .lenient source
    TakesEnd (after 8 s) final ∧ (after 8 s).tracker.levels = [0, 4, 8] ∧ (after 9 s).tracker.levels = [0] ∧
      (after 10 s).tracker.isExhausted = false ∧ (TokenSource.pull (after 10 s)).1 = .ok final ∧
      (∀ k, (TokenSource.pull (after (11 + k) s)).1 = .ok final ∧ pulled (11 + k) s = 7) ∧ KeepsEnd s := by
  intro final source s
  have htakes : TakesEnd (after 8 s) final :=
    ⟨⟨by decide +kernel, by decide +kernel⟩, by decide +kernel, rfl⟩
  have hopened : (after 8 s).tracker.opened.length = 2 := by decide +kernel
  obtain ⟨-, htaken, hhanded, hkeeps⟩ := end_is_final .lenient source
  have hends : Ends .again (after 8 s) final := htaken 8 final htakes
  have hlevels : (after 9 s).tracker.levels = [0] := by
    have hnext := hends.levels_eq 0
    rwa [← after_add] at hnext
  have hdelivered : (TokenSource.pull (after 10 s)).1 = .ok final := by
    have hlast := hends.delivered
    rwa [hopened, ← after_add] at hlast
  have hexhausted : (after 10 s).tracker.isExhausted = false := by
    have hiff := hends.isExhausted_iff 2
    rw [hopened, ← after_add] at hiff
    simpa using hiff
  have hseven : pulled 11 s = 7 := by decide +kernel
  have hlater (k : ℕ) : (TokenSource.pull (after (11 + k) s)).1 = .ok final ∧ pulled (11 + k) s = 7 := by
    obtain ⟨hreply, -, hpulled⟩ := (hhanded 10 final hdelivered rfl).2 k
    simp only [Nat.reduceAdd] at hreply hpulled
    exact ⟨hreply, hpulled.trans hseven⟩
  exact ⟨htakes, by decide +kernel, hlevels, hexhausted, hdelivered, hlater, hkeeps rfl⟩

end Tracked

end LayoutRule
