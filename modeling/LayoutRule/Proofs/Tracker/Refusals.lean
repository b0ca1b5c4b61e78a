import LayoutRule.Proofs.Tracker.Agreement
import LayoutRule.Proofs.Tracker.History
import LayoutRule.Proofs.Tracker.Laziness

/-! # Refusals

A strict tracker that refuses a line says where the line stands between the levels, and leaves these as they are.
It gives the same answer ever after. The first token of the line is lost, and so is all that the source holds
behind it: only the items before it are handed out, and the markers that stand before those. -/

namespace LayoutRule

open TokenSource

universe u

variable {σ : Type u} {ε : Type} [Source σ ε]

/-- No level stands at the column, and the innermost stands right of it. The nearest is the greatest below. -/
structure Misses (levels : List ℕ) (d : RaggedDedent) : Prop where
  not_mem : d.column ∉ levels
  lt_last : ∃ last, levels.getLast? = some last ∧ d.column < last
  isGreatest : IsGreatest {level | level ∈ levels ∧ level < d.column} d.nearest

theorem Tracker.misses_of_effect {t : Tracker} (hn : Nested t.opened) {raw : Token} {d : RaggedDedent}
    (h : t.effect raw = .error d) : Misses t.levels d ∧ raw.line = d.line ∧ raw.column = d.column := by
  obtain ⟨-, -, -, hmeasure⟩ := effect_eq_error h
  obtain ⟨hlt, -, hlevel, rfl⟩ := measure_eq_error hmeasure
  have hpos : 0 < raw.column :=
    Nat.pos_of_ne_zero fun hzero => hlevel ((t.mem_levels _).mpr (Or.inl hzero))
  exact ⟨⟨hlevel, ⟨t.top, t.getLast?_levels, hlt⟩, isGreatest_nearest hn hpos⟩, rfl, rfl⟩

theorem Tracker.isExhausted_of_failed {t : Tracker} {d : RaggedDedent} (h : t.status = .failed d) :
    t.isExhausted = false := by
  simp [isExhausted, h]

namespace Tracked

/-! ### From a refusal on -/

theorem after_of_failed {s : Tracked σ} {d : RaggedDedent} (h : s.tracker.status = .failed d) (n : ℕ) :
    after n s = s := by
  induction n with
  | zero => rfl
  | succ n ih =>
      have hsame : s.pull.2 = s := congrArg Prod.snd (pull_of_failed h)
      have hnext : after (n + 1) s = after n s.pull.2 := rfl
      rw [hnext, hsame, ih]

theorem pulled_of_failed {s : Tracked σ} {d : RaggedDedent} (h : s.tracker.status = .failed d) (n : ℕ) :
    pulled n s = 0 := by
  induction n with
  | zero => rfl
  | succ n ih =>
      have hbusy : s.tracker.asks = 0 :=
        (Tracker.asks_eq_zero_iff _).mpr ((Tracker.not_idle_iff _).mpr (Or.inr (Or.inl ⟨d, h⟩)))
      rw [pulled_succ, ih, after_of_failed h, hbusy]

/-- The next pull takes the token, the first of a line, and refuses the line. -/
structure Refuses (s : Tracked σ) (raw : Token) (d : RaggedDedent) : Prop where
  idle : s.tracker.Idle
  reply_eq : (TokenSource.pull s.source).1 = .ok raw
  effect_eq : s.tracker.effect raw = .error d

namespace Refuses

variable {s : Tracked σ} {raw : Token} {d : RaggedDedent}

theorem pull_eq (h : Refuses s raw d) : s.pull = (.error (.raggedDedent d),
    ⟨{ s.tracker with atLineStart := s.tracker.lineStartAfter raw, status := .failed d },
      (TokenSource.pull s.source).2⟩) :=
  pull_of_refused h.idle (Prod.ext h.reply_eq rfl) h.effect_eq

theorem status_eq (h : Refuses s raw d) : s.pull.2.tracker.status = .failed d := by
  rw [h.pull_eq]

theorem levels_eq (h : Refuses s raw d) : s.pull.2.tracker.levels = s.tracker.levels := by
  rw [h.pull_eq]
  rfl

theorem after_eq (h : Refuses s raw d) (n : ℕ) : after (n + 1) s = s.pull.2 :=
  after_of_failed h.status_eq n

theorem pulled_eq (h : Refuses s raw d) (n : ℕ) : pulled (n + 1) s = 1 := by
  rw [pulled_of_idle h.idle, pulled_of_failed h.status_eq]

theorem items_eq (h : Refuses s raw d) (n : ℕ) : items n s = [] := by
  cases n with
  | zero => rfl
  | succ n =>
      have horigin : s.origin = .refusal := by
        simp [origin, h.idle.running, h.idle.pending, h.reply_eq, h.effect_eq]
      rw [items, horigin, items_of_failed h.status_eq]
      rfl

end Refuses

/-- A ragged dedent is an error of the source that is passed on, or the tracker has failed with it. -/
theorem Pulls.passed_on_or_failed {s s' : Tracked σ} {o : Origin} {r : Reply ε} (h : Pulls s o r s')
    {d : RaggedDedent} (hr : r = .error (.raggedDedent d)) :
    s.tracker.Idle ∧ (TokenSource.pull s.source).1 = .error (.raggedDedent d) ∧ s'.tracker = s.tracker ∨
      s'.tracker.status = .failed d ∧ s'.tracker.levels = s.tracker.levels := by
  cases h with
  | refusedBefore hs =>
      cases hr
      exact Or.inr ⟨hs, rfl⟩
  | endedBefore => split at hr <;> cases hr
  | fails hi hpull => exact Or.inl ⟨hi, by rw [hpull, hr], rfl⟩
  | refuses =>
      cases hr
      exact Or.inr ⟨rfl, rfl⟩
  | _ => cases hr

/-- A tracker that has failed had failed before, or has just refused a line. -/
theorem Pulls.refuses_of_failed {s s' : Tracked σ} {o : Origin} {r : Reply ε} (h : Pulls s o r s')
    {d : RaggedDedent} (hd : s'.tracker.status = .failed d) :
    s.tracker.status = .failed d ∨ ∃ raw, Refuses s raw d := by
  cases h with
  | refusedBefore => exact Or.inl hd
  | endedBefore => exact Or.inl hd
  | closesMore k hs => simp [hs] at hd
  | @delivers t source raw hs => cases he : raw.isEnd <;> simp [he, hs] at hd
  | fails => exact Or.inl hd
  | @refuses t source raw source' d' hi hpull he =>
      obtain rfl : d' = d := by simpa using hd
      exact Or.inr ⟨raw, hi, by rw [hpull], he⟩
  | opens hi => simp [hi.running, Tracker.waiting] at hd
  | closes k closed hi => simp [hi.running, Tracker.waiting] at hd
  | @passes t source raw source' e hi => cases he : raw.isEnd <;> simp [hi.running, Tracker.settle, he] at hd

theorem exists_refuses_of_failed {s : Tracked σ} (hs : s.tracker.Steady)
    (hf : ∀ d, s.tracker.status ≠ .failed d) {n : ℕ} {d : RaggedDedent}
    (h : (after n s).tracker.status = .failed d) : ∃ m < n, ∃ raw, Refuses (after m s) raw d := by
  induction n with
  | zero => exact absurd h (hf d)
  | succ n ih =>
      have hlast : after (n + 1) s = (after n s).pull.2 := after_add n 1 s
      rw [hlast] at h
      rcases (pulls_pull (steady_after hs n)).refuses_of_failed h with hbefore | hnow
      · obtain ⟨m, hm, hrefuses⟩ := ih hbefore
        exact ⟨m, by omega, hrefuses⟩
      · exact ⟨n, Nat.lt_succ_self n, hnow⟩

/-! ### What is handed out -/

theorem items_add (m n : ℕ) (s : Tracked σ) : items (m + n) s = items m s ++ items n (after m s) := by
  induction m generalizing s with
  | zero => simp [items, after]
  | succ m ih =>
      rw [Nat.succ_add, items, items, ih, List.append_assoc]
      rfl

/-- A raw token that waits is handed out, or it waits still. -/
theorem Pulls.waiting_subset {s s' : Tracked σ} {o : Origin} {r : Reply ε} (h : Pulls s o r s') :
    waiting s ⊆ o.items r ++ waiting s' := by
  cases h with
  | refusedBefore => exact List.subset_append_right _ _
  | endedBefore => exact List.subset_append_right _ _
  | closesMore k hs hp => simp [waiting, hp, Origin.items]
  | delivers hs hp => simp [waiting, hp, Origin.items]
  | fails hi => simp [waiting, hi.pending]
  | refuses hi => simp [waiting, hi.pending]
  | opens hi => simp [waiting, hi.pending]
  | closes k closed hi => simp [waiting, hi.pending]
  | passes hi => simp [waiting, hi.pending]

theorem waiting_subset_items {s : Tracked σ} (hs : s.tracker.Steady) (n : ℕ) :
    waiting s ⊆ items n s ++ waiting (after n s) := by
  induction n generalizing s with
  | zero => exact List.subset_append_right _ _
  | succ n ih =>
      have hpulls := pulls_pull hs
      have hrest := ih (hpulls.steady hs)
      rw [items, List.append_assoc]
      exact List.Subset.trans hpulls.waiting_subset
        (List.append_subset.mpr ⟨List.subset_append_left _ _, List.subset_append_of_subset_right _ hrest⟩)

/-- A token that is handed out comes from the source, or it is the marker of one that waits behind it. -/
theorem Pulls.trigger {s s' : Tracked σ} {o : Origin} {r : Reply ε} (h : Pulls s o r s')
    (hend : s.tracker.isExhausted = false) {u : Token} (hu : r = .ok u) :
    ∃ raw, .ok raw ∈ o.items r ++ waiting s' ∧ (u = raw ∨ u = raw.blockOpen ∨ u = raw.blockDedent) := by
  cases h with
  | endedBefore hs => simp [Tracker.isExhausted, hs] at hend
  | @closesMore t source raw =>
      cases hu
      exact ⟨raw, by simp [waiting], Or.inr (Or.inr rfl)⟩
  | delivers =>
      cases hu
      exact ⟨u, by simp [Origin.items], Or.inl rfl⟩
  | @opens t source raw =>
      cases hu
      exact ⟨raw, by simp [waiting, Tracker.waiting], Or.inr (Or.inl rfl)⟩
  | @closes t source raw =>
      cases hu
      exact ⟨raw, by simp [waiting, Tracker.waiting], Or.inr (Or.inr rfl)⟩
  | passes =>
      cases hu
      exact ⟨u, by simp [Origin.items], Or.inl rfl⟩
  | _ => cases hu

/-- Along a run that has not come to its end, every token handed out goes back to one of the source. -/
theorem exists_trigger {s : Tracked σ} (hs : s.tracker.Steady) {n : ℕ}
    (hend : (after n s).tracker.isExhausted = false) {u : Token} (hu : .ok u ∈ replies n s) :
    ∃ raw, .ok raw ∈ items n s ++ waiting (after n s) ∧
      (u = raw ∨ u = raw.blockOpen ∨ u = raw.blockDedent) := by
  induction n generalizing s with
  | zero => cases hu
  | succ n ih =>
      have hpulls := pulls_pull hs
      have hsteady := hpulls.steady hs
      have hitems : items (n + 1) s = s.origin.items s.pull.1 ++ items n s.pull.2 := rfl
      have hnext : after (n + 1) s = after n s.pull.2 := rfl
      rw [hitems, hnext, List.append_assoc]
      rcases List.mem_cons.mp hu with hfirst | hlater
      · have hrunning : s.tracker.isExhausted = false := by
          by_contra he
          rw [exhausted_after hs (Or.inl (by simpa using he))] at hend
          cases hend
        obtain ⟨raw, hraw, htrigger⟩ := hpulls.trigger hrunning hfirst.symm
        have hwaiting := waiting_subset_items hsteady n
        exact ⟨raw, List.append_subset.mpr ⟨List.subset_append_left _ _,
          List.subset_append_of_subset_right _ hwaiting⟩ hraw, htrigger⟩
      · obtain ⟨raw, hraw, htrigger⟩ := ih hsteady hend hlater
        exact ⟨raw, List.mem_append_right _ hraw, htrigger⟩

/-- Behind a refusal nothing new is handed out. -/
theorem Refuses.handed_out {s : Tracked σ} (hs : s.tracker.Steady) {m : ℕ} {raw : Token} {d : RaggedDedent}
    (h : Refuses (after m s) raw d) (k : ℕ) :
    items k s <+: items m s ∧ ∀ u, .ok u ∈ replies k s →
      ∃ raw, .ok raw ∈ items m s ∧ (u = raw ∨ u = raw.blockOpen ∨ u = raw.blockDedent) := by
  have hitems : items (k + (m + 1)) s = items m s := by
    rw [Nat.add_left_comm, items_add, h.items_eq, List.append_nil]
  have hafter : after (k + (m + 1)) s = (after m s).pull.2 := by
    rw [Nat.add_left_comm, after_add, h.after_eq]
  have hsteady := (pulls_pull (steady_after hs m)).steady (steady_after hs m)
  have hwaiting : waiting (after m s).pull.2 = ([] : List (Reply ε)) := by
    simp [waiting, h.pull_eq, h.idle.pending]
  refine ⟨⟨items (m + 1) (after k s), by rw [← items_add, hitems]⟩, fun u hu => ?_⟩
  have hmem : .ok u ∈ replies (k + (m + 1)) s := by
    rw [replies_add]
    exact List.mem_append_left _ hu
  obtain ⟨raw, hraw, htrigger⟩ := exists_trigger hs (hafter ▸ Tracker.isExhausted_of_failed h.status_eq) hmem
  rw [hitems, hafter, hwaiting, List.append_nil] at hraw
  exact ⟨raw, hraw, htrigger⟩

/-! ### Exact and final -/

/-- An answer that is a ragged dedent is an error of the source, which is passed on, or the tracker refuses a line
or has refused one. In that case the levels stay as they are, the column of the line misses them, and the same is
answered ever after without a look at the source. The source has been asked for the first token of that line last.
Only what it gave before is handed out, and markers before that. -/
theorem refusal_is_final (config : TrackerConfig) (source : σ) (n : ℕ) (d : RaggedDedent) :
    let s := Tracked.start config source
    let t := after n s
    let t' := after (n + 1) s
    (TokenSource.pull t).1 = .error (.raggedDedent d) →
      (t.tracker.Idle ∧ (TokenSource.pull t.source).1 = .error (.raggedDedent d) ∧ t'.tracker = t.tracker) ∨
        (t'.tracker.levels = t.tracker.levels ∧ Misses t.tracker.levels d) ∧
          (t'.tracker.isExhausted = false ∧ ∀ k, after k t' = t' ∧ pulled k t' = 0 ∧
            (TokenSource.pull (after k t')).1 = .error (.raggedDedent d)) ∧
          ∃ p raw, (TokenSource.pull (after p source)).1 = .ok raw ∧ raw.line = d.line ∧
            raw.column = d.column ∧ pulled (n + 1) s = p + 1 ∧ items n s = replies p source ∧
            ∀ k, items k s <+: replies p source ∧ ∀ u, .ok u ∈ replies k s →
              ∃ raw, .ok raw ∈ replies p source ∧ (u = raw ∨ u = raw.blockOpen ∨ u = raw.blockDedent) := by
  intro s t t' h
  have hstart : s.tracker.Steady := Tracker.steady_start config
  have hlast : t' = t.pull.2 := after_add n 1 s
  rw [hlast]
  rcases (pulls_pull (steady_after hstart n)).passed_on_or_failed h with hpassed | ⟨hstatus, hlevels⟩
  · exact Or.inl hpassed
  · refine Or.inr ?_
    have hstatus' : (after (n + 1) s).tracker.status = .failed d := by rwa [← hlast] at hstatus
    obtain ⟨m, hm, raw, hrefuses⟩ := exists_refuses_of_failed hstart nofun hstatus'
    obtain ⟨j, hj⟩ : ∃ j, n = m + j := Nat.exists_eq_add_of_le (Nat.le_of_lt_succ hm)
    have hafter : t.pull.2 = (after m s).pull.2 := by
      rw [← hlast, ← hrefuses.after_eq j, ← after_add]
      exact congrArg (after · s) (by omega)
    obtain ⟨hmisses, hline, hcolumn⟩ :=
      Tracker.misses_of_effect (steady_after hstart m).nested hrefuses.effect_eq
    have hlevels' : t.tracker.levels = (after m s).tracker.levels := by
      rw [← hlevels, hafter, hrefuses.levels_eq]
    have hitems : items m s = replies (pulled m s) source :=
      items_of_idle hstart (Tracker.idle_start config) hrefuses.idle
    have hsame : items n s = items m s := by rw [hj, items_add, hrefuses.items_eq, List.append_nil]
    refine ⟨⟨hlevels, hlevels' ▸ hmisses⟩, ⟨Tracker.isExhausted_of_failed hstatus, fun k => ?_⟩,
      pulled m s, raw, ?_, hline, hcolumn, ?_, hsame.trans hitems, fun k => hitems ▸ hrefuses.handed_out hstart k⟩
    · rw [after_of_failed hstatus]
      exact ⟨rfl, pulled_of_failed hstatus k, congrArg Prod.fst (pull_of_failed hstatus)⟩
    · have hsource : (after m s).source = after (pulled m s) source := source_after m s
      rw [← hsource]
      exact hrefuses.reply_eq
    · rw [hj, Nat.add_assoc, pulled_add, hrefuses.pulled_eq]

/-- The line at 6 is refused by the ninth pull, and whatever is pulled then, `t4` does not come. -/
theorem refusal_is_final_between_levels :
    let source := Replay.ofTokens (Sample.linesAt [0, 4, 8, 6])
    let s := Tracked.start .strict source
    (TokenSource.pull (after 8 s)).1 = .error (.raggedDedent ⟨4, 6, 4⟩) ∧
      Misses [0, 4, 8] ⟨4, 6, 4⟩ ∧ pulled 9 s = 7 ∧
      (∀ k, (TokenSource.pull (after k (after 9 s))).1 = .error (.raggedDedent ⟨4, 6, 4⟩) ∧
        (after k (after 9 s)).tracker.levels = [0, 4, 8]) ∧
      ∀ k, .ok (Sample.nameToken "t4" 4 6 27) ∉ replies k s := by
  intro source s
  have hragged : (TokenSource.pull (after 8 s)).1 = .error (.raggedDedent ⟨4, 6, 4⟩) := by decide +kernel
  have hlevels : (after 9 s).tracker.levels = [0, 4, 8] := by decide +kernel
  rcases refusal_is_final .strict source 8 ⟨4, 6, 4⟩ hragged with
    ⟨-, hsource, -⟩ | ⟨⟨hsame, hmisses⟩, ⟨-, hfinal⟩, p, raw, -, -, -, hpulled, hitems, hout⟩
  · exact absurd hsource (by decide +kernel)
  · have hlevels' : (after 8 s).tracker.levels = [0, 4, 8] := hsame.symm.trans hlevels
    have hp : pulled 9 s = 7 := by decide +kernel
    refine ⟨hragged, hlevels' ▸ hmisses, hp, fun k => ?_, fun k hmem => ?_⟩
    · obtain ⟨hafter, -, hreply⟩ := hfinal k
      exact ⟨hreply, (congrArg (fun t => t.tracker.levels) hafter).trans hlevels⟩
    · obtain rfl : 6 = p := by
        have hcount : pulled 9 s = p + 1 := hpulled
        omega
      obtain ⟨raw', hraw, htrigger⟩ := (hout k).2 _ hmem
      have hraws : replies 6 source = ((Sample.linesAt [0, 4, 8, 6]).take 6).map .ok := by decide +kernel
      have habsent : Sample.nameToken "t4" 4 6 27 ∉ (Sample.linesAt [0, 4, 8, 6]).take 6 := by decide +kernel
      rw [hraws] at hraw
      rcases htrigger with rfl | hopen | hdedent
      · obtain ⟨v, hv, heq⟩ := List.mem_map.mp hraw
        exact habsent (Except.ok.inj heq ▸ hv)
      · cases congrArg Token.kind hopen
      · cases congrArg Token.kind hdedent

/-- Over a strict tracker, whose ragged dedent the outer one passes on, the line stands right of all levels. -/
theorem ragged_dedent_of_source_misses_nothing :
    let source := Tracked.start ⟨.strict, .again⟩ (Replay.ofTokens (Sample.linesAt [0, 4, 2]))
    let s := Tracked.start ⟨.strict, .again⟩ source
    (TokenSource.pull (after 5 s)).1 = .error (.raggedDedent ⟨3, 2, 0⟩) ∧
      ¬Misses (after 5 s).tracker.levels ⟨3, 2, 0⟩ := by
  intro source s
  have hlevels : (after 5 s).tracker.levels = [0] := by decide +kernel
  refine ⟨by decide +kernel, fun hmisses => ?_⟩
  obtain ⟨last, hlast, hlt⟩ := hmisses.lt_last
  rw [hlevels] at hlast
  obtain rfl : 0 = last := by simpa using hlast
  exact absurd hlt (by decide)

end Tracked

end LayoutRule
