import LayoutRule.Proofs.Source.Horizon

/-! # Readings of a text

A text is lexed to what is read of its tracked scanner, and that is the reading of its raw tokens through a tracker.
So lexing a text is settled by its raw tokens and by what the tracker makes of them. -/

namespace LayoutRule

open TokenSource

theorem lexWith_of_reads {config : TrackerConfig} {text : String} {cs : List Char} (htext : text.toList = cs)
    {ts : List Token} {r : Reply} {s' : Tracked Scanner}
    (h : Reads (Tracked.start config (Scanner.mk cs Position.start)) ts r s') :
    lexWith config text = r.map fun t => ts ++ [t] := by
  subst htext
  exact congrArg Prod.fst (collect_of_reads h h.length_lt_horizon)

/-- Scanning a text and lexing it are two readings of the same raw tokens. -/
theorem exists_reading_of_text (config : TrackerConfig) (text : String) :
    ∃ raws r s' out q, Reads (Scanner.ofText text) raws r s' ∧
      tokenize text = r.map (fun t => raws ++ [t]) ∧
      Tracked.Reading (Tracker.start config) raws r out q ∧
      lexWith config text = q.map fun t => out ++ [t] := by
  obtain ⟨raws, r, s', hreads, -⟩ := (Scanner.ofText text).exists_reads
  obtain ⟨out, q, s'', hreading, htracked, -⟩ := Tracked.exists_reading (Tracker.idle_start config) hreads
  exact ⟨raws, r, s', out, q, hreads, tokenize_of_reads hreads, hreading, lexWith_of_reads rfl htracked⟩

/-- The tokens of a text are those of a run over its raw tokens. -/
theorem exists_run_of_lexWith {config : TrackerConfig} {text : String} {tokens : List Token}
    (h : lexWith config text = .ok tokens) :
    ∃ raws t', tokenize text = .ok raws ∧ (Tracker.start config).Run raws tokens t' := by
  obtain ⟨raws, r, s', out, q, -, hraws, hreading, hlex⟩ := exists_reading_of_text config text
  rw [h] at hlex
  cases hreading with
  | failed => cases hlex
  | refused => cases hlex
  | ended hrun =>
      obtain rfl := Except.ok.inj hlex
      exact ⟨_, _, hraws, hrun⟩

/-- A text is lexed to the tokens of a run that comes to the end of its raw tokens. -/
theorem lexWith_of_run {config : TrackerConfig} {text : String} {raws out : List Token} {final : Token}
    {s' : Scanner} {t' : Tracker} (h : Reads (Scanner.ofText text) raws (.ok final) s')
    (hrun : (Tracker.start config).Run (raws ++ [final]) out t') : lexWith config text = .ok out := by
  have hreplies : replies (raws ++ [final]).length (Scanner.ofText text) = (raws ++ [final]).map .ok := by
    simpa using h.replies_eq
  have htracked := (Tracked.replies_run hrun hreplies).1
  obtain ⟨before, behind, t, rfl, hbefore, hlast⟩ := hrun.split
  cases hlast with
  | @cons _ _ _ e _ _ _ he hnil =>
      cases hnil
      have hend : ∀ u ∈ before ++ e.markers, u.isEnd = false := by
        intro u hu
        rcases List.mem_append.mp hu with hu | hu
        · exact hbefore.isEnd_eq_false h.isEnd_eq_false u hu
        · exact Tracker.isEnd_of_mem_markers he u hu
      have hreads : Reads (Tracked.start config (Scanner.ofText text)) (before ++ e.markers) (.ok final) _ :=
        reads_of_replies (by simpa [Tracked.start, Nat.add_assoc] using htracked) hend h.stops_eq_true
      rw [lexWith_of_reads rfl hreads]
      simp [Except.map]

/-- A text is lexed to what a reading of its raw tokens gets. -/
theorem lexWith_of_reading {config : TrackerConfig} {text : String} {raws out : List Token} {r q : Reply}
    {s' : Scanner} (hraws : Reads (Scanner.ofText text) raws r s')
    (h : Tracked.Reading (Tracker.start config) raws r out q) : lexWith config text = q.map fun t => out ++ [t] := by
  have hi := Tracker.idle_start config
  cases h with
  | ended hrun => exact lexWith_of_run hraws hrun
  | failed hrun =>
      exact lexWith_of_reads rfl (Tracked.reads_of_error hi hraws.isEnd_eq_false hrun hraws.replies_eq)
  | @refused before raw later _ _ _ d hrun hd =>
      have hend : ∀ u ∈ before, u.isEnd = false := fun u hu => hraws.isEnd_eq_false u (by simp [hu])
      have hreplies := hraws.replies_eq
      rw [List.map_append, List.map_cons, List.append_assoc, List.cons_append] at hreplies
      exact lexWith_of_reads rfl (Tracked.reads_of_refused hi hend hrun hd hreplies)

end LayoutRule
