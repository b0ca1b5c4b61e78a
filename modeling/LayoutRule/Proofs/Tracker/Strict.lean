import LayoutRule.Proofs.Tracker.Demand
import LayoutRule.Proofs.Tracker.History
import LayoutRule.Sample
import LayoutRule.Source.Replay

/-! # Strict layouts

A strict tracker comes to the end of its source exactly if no line is ragged. Otherwise it refuses the first
line that is, as soon as it has pulled the first token of that line. Up to there its levels are the columns
that the lines pulled so far have left open. -/

namespace LayoutRule

open TokenSource

universe u

variable {σ : Type u} {ε : Type} [Source σ ε]

namespace Tracked

/-- As long as nothing goes wrong, the open columns follow the lines pulled so far. Behind the end token none
is open. -/
theorem follows_after {s : Tracked σ} (hstrict : s.tracker.config.dedent = .strict) (hs : s.tracker.Steady)
    (hrunning : s.tracker.status = .running) (hwaiting : ∀ u ∈ s.tracker.pending, u.isEnd = false)
    {columns : List ℕ} (hf : Follows s.tracker.opened columns) {raws : List Token} {final : Token}
    {source' : σ} (h : Reads s.source raws (.ok final) source') {n : ℕ}
    (hok : ∀ e, .error e ∉ replies n s) :
    (pulled n s ≤ raws.length → Follows (after n s).tracker.opened (columns ++
        (firstsFrom s.tracker.atLineStart (raws.take (pulled n s))).map Token.column)) ∧
      (raws.length < pulled n s → (after n s).tracker.opened = []) := by
  induction n generalizing s columns raws with
  | zero => simpa [pulled, after] using hf
  | succ n ih =>
      have hsteady := (pulls_pull hs).steady hs
      have hok' : ∀ e, .error e ∉ replies n s.pull.2 := fun e he => hok e (List.mem_cons_of_mem _ he)
      have hnext : after (n + 1) s = after n s.pull.2 := rfl
      cases hp : s.tracker.pending with
      | cons p ps =>
          have hpend : p.isEnd = false := hwaiting p (by simp [hp])
          have hpull := pull_of_pending (s := s) (by simp [hrunning]) hp
          rw [pulled_of_pending hp, hnext]
          rw [hpull] at hok' hsteady ⊢
          refine ih ?_ hsteady ?_ ?_ hf h hok'
          · exact hstrict
          · simp [hpend, hrunning]
          · exact fun u hu => hwaiting u (by simp [hp, hu])
      | nil =>
          have hi : s.tracker.Idle := ⟨hrunning, hp⟩
          rw [pulled_of_idle hi, hnext]
          cases h with
          | @stop _ _ source hpull hend =>
              obtain ⟨later, status, hafter, hseen⟩ :=
                pull_of_effect hi hpull (s.tracker.effect_of_isEnd hend)
              have hend : final.isEnd = true := hend
              rw [if_pos hend] at hseen
              refine ⟨fun hle => by simp at hle, fun _ => opened_after_of_seenEnd hsteady ?_ n⟩
              rw [hafter]
              exact hseen.imp_right fun hstatus => by simp [Tracker.isExhausted, hstatus]
          | @token _ raw source raws _ _ hpull hraw hrest =>
              cases he : s.tracker.effect raw with
              | error d =>
                  refine absurd ?_ (hok (.raggedDedent d))
                  have hreply : (TokenSource.pull s).1 = _ := congrArg Prod.fst (pull_of_refused hi hpull he)
                  rw [replies, hreply]
                  exact List.mem_cons_self
              | ok e =>
                  obtain ⟨later, status, hafter, hlater⟩ := pull_of_effect hi hpull he
                  rw [hraw, if_neg (by decide)] at hlater
                  have hfollows := Tracker.follows_effect hf hstrict hraw he
                  rw [hafter] at hok' hsteady ⊢
                  obtain ⟨hopen, hclosed⟩ := ih (s := ⟨⟨s.tracker.config, e.opened, later, _, status⟩, source⟩)
                    hstrict hsteady hlater.1 hlater.2 hfollows hrest hok'
                  rw [List.length_cons]
                  refine ⟨fun hle => ?_, fun hlt => hclosed (by omega)⟩
                  rw [Nat.add_comm 1, List.take_succ_cons, s.tracker.firstsFrom_atLineStart hraw,
                    List.map_append, ← List.append_assoc]
                  exact hopen (by omega)

/-- Over a source that comes to its end token, a strict tracker hands out the end token exactly if no line is
ragged, and otherwise refuses the earliest ragged line in answer to the pull that takes its first token. As
long as it has answered without an error, its levels are the columns left open by the lines that it has
pulled, in rising order, until the end token leaves only the bottom level. -/
theorem strict_follows_columns {config : TrackerConfig} (hstrict : config.dedent = .strict)
    {source source' : σ} {raws : List Token} {final : Token} (h : Reads source raws (.ok final) source') :
    let s := Tracked.start config source
    let columns := (lineFirsts raws).map Token.column
    ((∃ out s', Reads s out (.ok final) s') ↔ ∀ i, ¬RaggedAt columns i) ∧
      (∀ i, IsLeast {k | RaggedAt columns k} i → ∃ before first later d out s',
        raws = before ++ first :: later ∧ (lineFirsts before).length = i ∧
          EarliestRagged (lineFirsts raws) i first d ∧
          Reads s out (.error (.raggedDedent d)) s' ∧ s'.source = after (before.length + 1) source) ∧
      ∀ n, (∀ e, .error e ∉ replies n s) →
        (pulled n s ≤ raws.length →
          (after n s).tracker.levels.Pairwise (· < ·) ∧
            ∀ c, c ∈ (after n s).tracker.levels ↔
              LeftOpen (columns.take (lineFirsts (raws.take (pulled n s))).length) c) ∧
        (raws.length < pulled n s → (after n s).tracker.levels = [0]) := by
  intro s columns
  have hlevels (n : ℕ) (hok : ∀ e, .error e ∉ replies n s) := follows_after (s := s) hstrict
    (Tracker.steady_start config) rfl (by simp [s, Tracked.start, Tracker.start]) .nil h hok
  obtain ⟨out, q, s', hreading, hreads, -⟩ := exists_reading (Tracker.idle_start config) h
  have hcases := hreading.regular_or_refused hstrict h.isEnd_eq_false
  refine ⟨?_, ?_, fun n hok => ⟨fun hle => ?_, fun hlt => ?_⟩⟩
  · rcases hcases with ⟨rfl, hregular⟩ | ⟨before, first, later, d, t, -, hearliest, -, -, rfl⟩
    · exact iff_of_true ⟨out, s', hreads⟩ hregular
    · refine iff_of_false ?_ fun hregular => hregular _ hearliest.isLeast.1
      rintro ⟨out', s'', hend⟩
      cases (hreads.unique hend).2
  · intro i hi
    rcases hcases with ⟨-, hregular⟩ | ⟨before, first, later, d, t, rfl, hearliest, hrun, hd, -⟩
    · exact absurd hi.1 (hregular i)
    · obtain rfl := hi.unique hearliest.isLeast
      obtain ⟨s'', hrefused, hsource⟩ := exists_reading_of_refused (Tracker.idle_start config) hrun hd h
      exact ⟨before, first, later, d, out, s'', rfl, rfl, hearliest, hrefused, hsource⟩
  · have hopen := (hlevels n hok).1 hle
    refine ⟨(after n s).tracker.pairwise_levels_iff.mpr hopen.nested, fun c => ?_⟩
    rw [Tracker.mem_levels, hopen.mem_iff, List.nil_append, ← List.map_take, ← lineFirsts_take]
    rfl
  · simp [Tracker.levels, (hlevels n hok).2 hlt]

/-- The fourth line stands between the levels 4 and 8. -/
theorem strict_follows_columns_ragged :
    let source := Replay.ofTokens (Sample.linesAt [0, 4, 8, 6])
    let raws := (Sample.linesAt [0, 4, 8, 6]).dropLast
    let s := Tracked.start .strict source
    TrackerConfig.strict.dedent = .strict ∧
      (∃ source', Reads source raws (.ok (Token.endOfInput 5 0 30)) source') ∧
      (∃ d out s', d.line = 4 ∧ d.column = 6 ∧ Reads s out (.error (.raggedDedent d)) s') ∧
      (∀ out s', ¬Reads s out (.ok (Token.endOfInput 5 0 30)) s') ∧
      ∀ c, c ∈ (after 8 s).tracker.levels ↔ LeftOpen [0, 4, 8] c := by
  intro source raws s
  have hreads : Reads source raws (.ok (Token.endOfInput 5 0 30)) (after (raws.length + 1) source) :=
    reads_of_replies (by decide +kernel) (by decide +kernel) rfl
  have hcolumns : (lineFirsts raws).map Token.column = [0, 4, 8, 6] := by decide +kernel
  have hfirsts : lineFirsts raws = [Sample.nameToken "t1" 1 0 0, Sample.nameToken "t2" 2 4 7,
      Sample.nameToken "t3" 3 8 18, Sample.nameToken "t4" 4 6 27] := by decide +kernel
  have hstrict : TrackerConfig.strict.dedent = .strict := rfl
  obtain ⟨hend, hrefused, hlevels⟩ := strict_follows_columns hstrict hreads
  rw [hcolumns] at hend hrefused hlevels
  have hearlier : ∀ k < 3, ¬RaggedAt [0, 4, 8, 6] k := by decide
  have hleast : IsLeast {k | RaggedAt [0, 4, 8, 6] k} 3 :=
    ⟨by decide, fun k hk => Nat.le_of_not_lt fun hlt => hearlier k hlt hk⟩
  obtain ⟨before, first, later, d, out, s', -, -, hearliest, herror, -⟩ := hrefused 3 hleast
  have hfirst : Sample.nameToken "t4" 4 6 27 = first := by
    simpa [hfirsts] using hearliest.getElem?_eq
  have hpulled : pulled 8 s = 6 := by decide +kernel
  have hok : ∀ r ∈ replies 8 s, r.isOk = true := by decide +kernel
  have hopen := ((hlevels 8 fun e he => by cases hok _ he).1 (by rw [hpulled]; decide +kernel)).2
  refine ⟨hstrict, ⟨_, hreads⟩, ⟨d, out, s', ?_, ?_, herror⟩, ?_, ?_⟩
  · rw [hearliest.line_eq, ← hfirst]
    rfl
  · rw [hearliest.column_eq, ← hfirst]
    rfl
  · exact fun out s' h => hend.mp ⟨out, s', h⟩ 3 hleast.1
  · have hlines : (lineFirsts (raws.take 6)).length = 3 := by decide +kernel
    rw [hpulled, hlines] at hopen
    exact hopen

end Tracked

end LayoutRule
