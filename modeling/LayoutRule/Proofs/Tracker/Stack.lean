import LayoutRule.Proofs.Tracker.History
import LayoutRule.Proofs.Tracker.Rounds

/-! # The tracker as a machine with a stack

The tracker keeps the levels above column 0, and whether it has ended or refused a line is one status. A machine can keep
column 0 on its stack as the level at the bottom instead, pop levels one at a time, and remember an end token and a
refusal apart. Such a machine has no top to compare with once its stack is empty. Run from the start it never comes
to that, and it answers as the tracker does. -/

namespace LayoutRule

open TokenSource

universe u

/-- The levels stand innermost first, down to the one at the bottom. -/
structure StackTracker where
  config : TrackerConfig
  stack : List ℕ
  pending : List Token
  atLineStart : Bool
  final? : Option Token
  refused? : Option RaggedDedent

namespace StackTracker

def start (config : TrackerConfig) : StackTracker := ⟨config, [0], [], true, none, none⟩

/-- Pops levels while the top stands right of a column, and fails if there is no top. It returns what was popped and what
is left. -/
def popAbove (column : ℕ) : List ℕ → Option (List ℕ × List ℕ)
  | [] => none
  | top :: stack =>
      if column < top then (popAbove column stack).map fun p => (top :: p.1, p.2) else some ([], top :: stack)

/-- Pops levels while there is more than one. -/
def popToBottom : List ℕ → List ℕ × List ℕ
  | top :: next :: stack =>
      let (popped, rest) := popToBottom (next :: stack)
      (top :: popped, rest)
  | stack => ([], stack)

/-- The greatest level left of a column, or 0. -/
def nearest (stack : List ℕ) (column : ℕ) : ℕ :=
  ((stack.filter (· < column)).max?).getD 0

/-- Compares the first token of a line with the top. It returns the markers for the token and the new stack. -/
def measure (m : StackTracker) (raw : Token) : Option (Except RaggedDedent (List Token × List ℕ)) :=
  match m.stack with
  | [] => none
  | top :: _ =>
      match compare raw.column top with
      | .eq => some (.ok ([], m.stack))
      | .gt => some (.ok ([raw.blockOpen], raw.column :: m.stack))
      | .lt =>
          if m.config.dedent = .strict ∧ raw.column ∉ m.stack then
            some (.error ⟨raw.line, raw.column, nearest m.stack raw.column⟩)
          else (popAbove raw.column m.stack).map fun p => .ok (p.1.map fun _ => raw.blockDedent, p.2)

/-- The answer without a raw token: the refusal, the first token in the queue, or what the policy says behind the end
token. -/
def ready? (ε : Type) (m : StackTracker) : Option (Reply ε × StackTracker) :=
  match m.refused?, m.pending, m.final? with
  | some d, _, _ => some (.error (.raggedDedent d), m)
  | none, p :: ps, _ =>
      some (.ok p, { m with pending := ps, final? := if p.isEnd then some p else m.final? })
  | none, [], some final =>
      match m.config.afterEnd with
      | .again => some (.ok final, m)
      | .fail => some (.error .useAfterEnd, m)
  | none, [], none => none

/-- Takes a raw token. It is answered with at once, or goes into the queue behind its markers. -/
def take (ε : Type) (m : StackTracker) (raw : Token) : Option (Option (Reply ε) × StackTracker) :=
  match raw.kind with
  | .endOfInput =>
      let (popped, stack) := popToBottom m.stack
      some (none, { m with stack, pending := m.pending ++ (popped.map fun _ => raw.blockDedent) ++ [raw] })
  | .lineBreak => some (some (.ok raw), { m with atLineStart := true })
  | _ =>
      if m.atLineStart then
        (m.measure raw).map fun
          | .error d => (some (.error (.raggedDedent d)), { m with atLineStart := false, refused? := some d })
          | .ok (markers, stack) =>
              (none, { m with atLineStart := false, stack, pending := m.pending ++ markers ++ [raw] })
      else some (some (.ok raw), m)

variable {σ : Type u} {ε : Type} [Source σ ε]

/-- A pull. Behind a raw token that has gone into the queue the answer comes from there. -/
def pull (m : StackTracker) (source : σ) : Option (Reply ε × StackTracker × σ) :=
  match m.ready? ε with
  | some (reply, m') => some (reply, m', source)
  | none =>
      match TokenSource.pull source with
      | (.error e, source') => some (.error e, m, source')
      | (.ok raw, source') =>
          match m.take ε raw with
          | none => none
          | some (some reply, m') => some (reply, m', source')
          | some (none, m') => (m'.ready? ε).map fun p => (p.1, p.2, source')

/-- The answers to `n` pulls, and what they leave behind. -/
def run : ℕ → StackTracker → σ → Option (List (Reply ε) × StackTracker × σ)
  | 0, m, source => some ([], m, source)
  | n + 1, m, source =>
      match m.pull source with
      | none => none
      | some (reply, m', source') => (run n m' source').map fun p => (reply :: p.1, p.2)

/-! ### Pulls -/

section Pulls

variable {m m' : StackTracker} {raw : Token} {source source' : σ}

theorem take_of_lineBreak (hb : raw.kind = .lineBreak) :
    m.take ε raw = some (some (.ok raw), { m with atLineStart := true }) := by
  simp [take, hb]

theorem take_of_isEnd (he : raw.isEnd = true) :
    m.take ε raw = some (none, { m with
      stack := (popToBottom m.stack).2
      pending := m.pending ++ ((popToBottom m.stack).1.map fun _ => raw.blockDedent) ++ [raw] }) := by
  simp [take, (Token.isEnd_iff raw).mp he]

theorem take_of_content (hb : raw.kind ≠ .lineBreak) (he : raw.isEnd = false) :
    m.take ε raw = if m.atLineStart then
      (m.measure raw).map fun
        | .error d => (some (.error (.raggedDedent d)), { m with atLineStart := false, refused? := some d })
        | .ok (markers, stack) =>
            (none, { m with atLineStart := false, stack, pending := m.pending ++ markers ++ [raw] })
      else some (some (.ok raw), m) := by
  have hk : raw.kind ≠ .endOfInput := by simpa [Token.isEnd] using he
  unfold take
  split <;> simp_all

theorem pull_of_ready {reply : Reply ε} (h : m.ready? ε = some (reply, m')) :
    m.pull source = some (reply, m', source) := by
  simp [pull, h]

theorem pull_of_failure {e : SourceError ε} (h : m.ready? ε = none)
    (hpull : TokenSource.pull source = (.error e, source')) : m.pull source = some (.error e, m, source') := by
  simp [pull, h, hpull]

theorem pull_of_answered {reply : Reply ε} (h : m.ready? ε = none)
    (hpull : TokenSource.pull source = (.ok raw, source')) (htake : m.take ε raw = some (some reply, m')) :
    m.pull source = some (reply, m', source') := by
  simp [pull, h, hpull, htake]

theorem pull_of_queued {reply : Reply ε} {queued : StackTracker} (h : m.ready? ε = none)
    (hpull : TokenSource.pull source = (.ok raw, source')) (htake : m.take ε raw = some (none, queued))
    (hready : queued.ready? ε = some (reply, m')) : m.pull source = some (reply, m', source') := by
  simp [pull, h, hpull, htake, hready]

end Pulls

/-! ### Popping -/

/-- A stack with column 0 at the bottom is never popped empty. -/
theorem popAbove_eq (column : ℕ) (opened : List ℕ) :
    popAbove column (opened ++ [0]) =
      some (opened.takeWhile (column < ·), opened.dropWhile (column < ·) ++ [0]) := by
  induction opened with
  | nil => rfl
  | cons top opened ih =>
      by_cases hright : column < top
      · simp [popAbove, hright, ih]
      · simp [popAbove, hright]

theorem popToBottom_eq (opened : List ℕ) : popToBottom (opened ++ [0]) = (opened, [0]) := by
  induction opened with
  | nil => rfl
  | cons top opened ih =>
      cases opened with
      | nil => rfl
      | cons next opened =>
          simp only [List.cons_append] at ih ⊢
          rw [popToBottom, ih]

end StackTracker

/-! ### Machines of trackers -/

namespace Tracker

/-- The machine that stands where the tracker does. -/
def onStack (t : Tracker) : StackTracker where
  config := t.config
  stack := t.opened ++ [0]
  pending := t.pending
  atLineStart := t.atLineStart
  final? := match t.status with
    | .ended final => some final
    | _ => none
  refused? := match t.status with
    | .failed d => some d
    | _ => none

theorem reverse_stack_onStack (t : Tracker) : t.onStack.stack.reverse = t.levels := by
  simp [onStack, levels]

theorem mem_stack_onStack (t : Tracker) (c : ℕ) : c ∈ t.onStack.stack ↔ c ∈ t.levels := by
  rw [← t.reverse_stack_onStack, List.mem_reverse]

theorem head?_stack_onStack (t : Tracker) : t.onStack.stack.head? = some t.top := by
  rw [← t.getLast?_levels, ← t.reverse_stack_onStack, List.getLast?_reverse]

theorem nearest_stack_onStack {t : Tracker} (hn : Nested t.opened) {c : ℕ} (hc : 0 < c) :
    StackTracker.nearest t.onStack.stack c = t.nearest c := by
  obtain ⟨⟨hlevel, hlt⟩, hgreatest⟩ := t.isGreatest_nearest hn hc
  have hmax : (t.onStack.stack.filter (· < c)).max? = some (t.nearest c) := by
    apply List.max?_eq_some_iff.mpr
    constructor
    · simp [mem_stack_onStack, hlevel, hlt]
    · intro level hmem
      simp only [List.mem_filter, mem_stack_onStack, decide_eq_true_eq] at hmem
      exact hgreatest hmem
  rw [StackTracker.nearest, hmax, Option.getD_some]

/-- Measuring on the stack is measuring. -/
theorem measure_onStack {t : Tracker} (hn : Nested t.opened) (raw : Token) :
    t.onStack.measure raw = some ((t.measure raw).map fun e => (e.markers, e.opened ++ [0])) := by
  have hhead := t.head?_stack_onStack
  have htop : t.top ∈ t.levels := List.mem_of_getLast? t.getLast?_levels
  unfold StackTracker.measure
  split
  · next hempty => simp [hempty] at hhead
  · next top below hstack =>
      obtain rfl : top = t.top := by simpa [hstack] using hhead
      rcases Nat.lt_trichotomy raw.column t.top with hleft | heq | hright
      · simp only [Nat.compare_eq_lt.mpr hleft, measure, if_neg hleft.not_gt, mem_stack_onStack]
        by_cases hrefused : t.config.dedent = .strict ∧ raw.column ∉ t.levels
        · have hpos : 0 < raw.column := Nat.pos_of_ne_zero fun hzero =>
            hrefused.2 ((t.mem_levels _).mpr (.inl hzero))
          rw [nearest_stack_onStack hn hpos, if_pos hrefused]
          exact if_pos hrefused
        · rw [if_neg hrefused]
          refine (if_neg hrefused).trans ?_
          rw [onStack, StackTracker.popAbove_eq]
          rfl
      · have hnone : t.opened.takeWhile (raw.column < ·) = [] ∧ t.opened.dropWhile (raw.column < ·) = t.opened := by
          rw [heq]
          cases hopened : t.opened <;> simp [top, hopened]
        have hlevel : ¬(t.config.dedent = .strict ∧ raw.column ∉ t.levels) := fun h => h.2 (heq ▸ htop)
        simp only [Nat.compare_eq_eq.mpr heq, measure, if_neg heq.not_gt, if_neg hlevel, hnone]
        rfl
      · simp only [Nat.compare_eq_gt.mpr hright, measure, if_pos hright]
        rfl

theorem ready?_onStack (t : Tracker) : t.onStack.ready? ε = (t.ready? ε).map fun p => (p.1, p.2.onStack) := by
  obtain ⟨⟨dedent, afterEnd⟩, opened, pending, atLineStart, status⟩ := t
  cases status with
  | failed d => rfl
  | running =>
      cases pending with
      | nil => rfl
      | cons p ps => cases hend : p.isEnd <;> simp [StackTracker.ready?, ready?, onStack, handOut, hend]
  | ended final =>
      cases pending with
      | nil => cases afterEnd <;> rfl
      | cons p ps => cases hend : p.isEnd <;> simp [StackTracker.ready?, ready?, onStack, handOut, hend]

end Tracker

namespace Tracked

variable {σ : Type u} {ε : Type} [Source σ ε]

/-- Behind a raw token in the queue the rounds end with what comes from there. -/
theorem Rounds.of_queued {t : Tracker} {raw : Token} {e : Effect} {source : σ} {k : ℕ} {r : Reply ε} {s' : Tracked σ}
    (h : Rounds ⟨t.enqueue raw e, source⟩ k r s') :
    (t.enqueue raw e).onStack.ready? ε = some (r, s'.tracker.onStack) ∧ s'.source = source := by
  have hbusy : (t.enqueue raw e).ready? ε ≠ none := by
    rw [ne_eq, Tracker.ready?_eq_none_iff, Tracker.not_idle_iff]
    exact Or.inl (by simp [Tracker.enqueue])
  obtain ⟨⟨reply, tracker⟩, hready⟩ := Option.ne_none_iff_exists'.mp hbusy
  have hpull := h.eq_pull.2
  rw [pull_of_ready (s := ⟨t.enqueue raw e, source⟩) hready] at hpull
  obtain ⟨rfl, rfl⟩ := Prod.mk.inj hpull
  exact ⟨by rw [Tracker.ready?_onStack, hready, Option.map_some], rfl⟩

/-- The machine goes round as the tracker does. -/
theorem Rounds.pull_onStack {s s' : Tracked σ} {k : ℕ} {r : Reply ε} (h : Rounds s k r s')
    (hn : Nested s.tracker.opened) :
    s.tracker.onStack.pull s.source = some (r, s'.tracker.onStack, s'.source) := by
  have hnone (t : Tracker) (hready : t.ready? ε = none) : t.onStack.ready? ε = none := by
    rw [Tracker.ready?_onStack, hready, Option.map_none]
  cases h with
  | ready hready =>
      apply StackTracker.pull_of_ready
      rw [Tracker.ready?_onStack, hready, Option.map_some]
  | failure hready hpull => exact StackTracker.pull_of_failure (hnone _ hready) hpull
  | lineBreak hready hpull hb =>
      exact StackTracker.pull_of_answered (hnone _ hready) hpull (StackTracker.take_of_lineBreak hb)
  | @withinLine t source raw source' hready hpull hb he hat =>
      apply StackTracker.pull_of_answered (hnone _ hready) hpull
      rw [StackTracker.take_of_content hb he]
      simp [Tracker.onStack, hat]
  | @refused t source raw source' d hready hpull hb he hat hd =>
      apply StackTracker.pull_of_answered (hnone _ hready) hpull
      rw [StackTracker.take_of_content hb he, Tracker.measure_onStack hn, hd]
      have hs : t.status = .running := (Tracker.idle_of_ready?_eq_none hready).running
      simp [Except.map, Tracker.onStack, hat, hs]
  | @measured t source raw source' e k _ _ hready hpull hb he hat hmeasure hrest =>
      obtain ⟨hqueued, hsource⟩ := hrest.of_queued
      rw [hsource]
      apply StackTracker.pull_of_queued (hnone _ hready) hpull ?_ hqueued
      rw [StackTracker.take_of_content hb he, Tracker.measure_onStack hn, hmeasure]
      simp [Except.map, Tracker.onStack, Tracker.enqueue, hat]
  | @flushed t source raw source' k _ _ hready hpull he hrest =>
      obtain ⟨hqueued, hsource⟩ := hrest.of_queued
      rw [hsource]
      apply StackTracker.pull_of_queued (hnone _ hready) hpull ?_ hqueued
      rw [StackTracker.take_of_isEnd he, Tracker.onStack, StackTracker.popToBottom_eq]
      simp [Tracker.onStack, Tracker.enqueue, List.map_const']

/-- The machine never comes to an empty stack. It answers as the tracked source does, with the same levels, and asks
the source for the same tokens. -/
theorem run_onStack (n : ℕ) {s : Tracked σ} (hs : s.tracker.Steady) :
    s.tracker.onStack.run n s.source =
      some (replies n s, (after n s).tracker.onStack, (after n s).source) := by
  induction n generalizing s with
  | zero => rfl
  | succ n ih =>
      obtain ⟨k, r, s', hrounds⟩ := s.exists_rounds
      have hpull : TokenSource.pull s = (r, s') := hrounds.eq_pull.2
      have hnext : s'.tracker.Steady := by
        have := (pulls_pull hs).steady hs
        rwa [hrounds.eq_pull.2] at this
      rw [StackTracker.run, hrounds.pull_onStack hs.nested, replies, after, hpull]
      simp only [ih hnext, Option.map_some]

/-- From the start any number of pulls of the machine succeed. Column 0 stays at the bottom of its stack, and an end
token and a refusal are never there together. -/
theorem run_start (config : TrackerConfig) (source : σ) (n : ℕ) :
    let s := Tracked.start config source
    ∃ m, (StackTracker.start config).run n source = some (replies n s, m, (after n s).source) ∧
      m.stack.reverse = (after n s).tracker.levels ∧ m.stack.getLast? = some 0 ∧
      m.final?.isSome = (after n s).tracker.isExhausted ∧ (m.final? = none ∨ m.refused? = none) := by
  intro s
  have hrun := run_onStack (s := s) n (Tracker.steady_start config)
  refine ⟨_, hrun, Tracker.reverse_stack_onStack _, List.getLast?_concat, ?_⟩
  cases hs : (after n s).tracker.status <;> simp [Tracker.onStack, Tracker.isExhausted, hs]

end Tracked

end LayoutRule
