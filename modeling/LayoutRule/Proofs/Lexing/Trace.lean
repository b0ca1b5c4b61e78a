import LayoutRule.Proofs.Source.Horizon
import LayoutRule.Proofs.Tracker.Reports
import LayoutRule.Proofs.Tracker.Rows
import LayoutRule.Sample

/-! # Traces of texts

The trace of a text goes through the raw tokens that were taken, and through nothing else. So the markers of the
result can be read off it, and where a line is refused it ends with the first token of that line. -/

namespace LayoutRule

open TokenSource

/-! ### Lines of raw tokens -/

theorem RawTokens.line_le {line : ℕ} {ts : List Token} (h : RawTokens line ts) : ∀ t ∈ ts, line ≤ t.line := by
  induction h with
  | finish _ hline => simp [hline]
  | lineBreak _ hline _ ih =>
      exact List.forall_mem_cons.mpr ⟨hline.ge, fun t ht => (Nat.le_succ _).trans (ih t ht)⟩
  | ordinary _ hline _ ih => exact List.forall_mem_cons.mpr ⟨hline.ge, ih⟩

/-- The tokens that are read before the scanner stops can be followed by an end token. -/
theorem Scanner.exists_rawTokens {s s' : Scanner} {ts : List Token} {r : Reply} (h : Reads s ts r s') :
    ∃ final, RawTokens s.position.line (ts ++ [final]) := by
  induction h with
  | @stop s => exact ⟨Token.endOfInput s.position.line 0 0, .finish rfl rfl⟩
  | @token s u s' ts r s'' hp hu _ ih =>
      obtain ⟨final, hrest⟩ := ih
      refine ⟨final, ?_⟩
      obtain ⟨hline, hend | ⟨-, ⟨hk, hnext⟩ | ⟨hk, hnext⟩⟩⟩ := pull_eq_ok hp
      · simp [hend] at hu
      · exact .lineBreak hk hline (hnext ▸ hrest)
      · exact .ordinary hk hline (hnext ▸ hrest)

/-- Where a line begins behind a run, the raw tokens of the run stand on earlier lines. -/
theorem Tracker.Run.line_lt {t t' : Tracker} {raws out : List Token} (h : t.Run raws out t') {line : ℕ} {first : Token}
    {later : List Token} (hraws : RawTokens line (raws ++ first :: later)) (hstart : t'.atLineStart = true) :
    ∀ raw ∈ raws, raw.line < first.line := by
  induction h generalizing line with
  | nil => simp
  | @cons t raw raws e out t' _ _ hrun ih =>
      rw [List.cons_append] at hraws
      generalize hrest : raws ++ first :: later = rest at hraws
      have hfirst : first ∈ rest := hrest ▸ by simp
      cases hraws with
      | finish => simp at hrest
      | lineBreak _ hline hrows =>
          have hle := hrows.line_le first hfirst
          exact List.forall_mem_cons.mpr ⟨by omega, ih (hrest ▸ hrows) hstart⟩
      | ordinary hk hline hrows =>
          have hbefore := ih (hrest ▸ hrows) hstart
          refine List.forall_mem_cons.mpr ⟨?_, hbefore⟩
          cases raws with
          | nil =>
              -- no line begins behind a part of a statement
              cases hrun
              obtain ⟨hb, hend⟩ := content_of_isOrdinary hk
              rw [Tracker.settle, t.lineStartAfter_of_content hb hend] at hstart
              cases hstart
          | cons raw' raws =>
              have hle := hrows.line_le raw' (hrest ▸ by simp)
              have hlt := hbefore raw' (by simp)
              omega

/-- A scanner fails at text that begins no token, and nowhere else. -/
theorem Scanner.unexpectedCharacter_of_reads {s s' : Scanner} {ts : List Token} {r : Reply} {e : LexError}
    (h : Reads s ts r s') (hr : r = .error e) : ∃ line column part, e = .unexpectedCharacter line column part := by
  induction h with
  | @stop s r s' hp _ =>
      subst hr
      have hp : s.pull = (.error e, s') := hp
      rcases s.pull_cases with ⟨k, w, -, hpull⟩ | ⟨-, hpull⟩ | ⟨-, -, hpull⟩
      · cases hp.symm.trans hpull
      · cases hp.symm.trans hpull
      · obtain ⟨heq, -⟩ := Prod.mk.inj (hp.symm.trans hpull)
        exact ⟨_, _, _, Except.error.inj heq⟩
  | token _ _ _ ih => exact ih hr

/-! ### What a trace goes through -/

/-- While a text is lexed, the raw tokens `raws` are taken from the scanner, and then the error `failure` if there is
one. The trace is made of the events of these tokens. -/
structure Logged (config : TrackerConfig) (text : String) (raws : List Token) (failure : Option LexError) : Prop where
  pulled : replies (raws.length + failure.toList.length) (Scanner.ofText text) =
    raws.map .ok ++ failure.toList.map .error
  left : (collect (Tracked.start config (Scanner.ofText text))).2.source =
    after (raws.length + failure.toList.length) (Scanner.ofText text)
  taken : ((Tracker.start config).takings raws).map Taken.raw = raws
  trace : lexTrace config text =
    (lexWith config text, ((Tracker.start config).takings raws).flatMap Taken.events)

section Logged

variable {config : TrackerConfig} {text : String}

/-- The trace of a text holds the events of all pulls. -/
theorem lexTrace_of_reads {ts : List Token} {r : Reply} {s : Tracked Scanner}
    (h : Reads (Tracked.start config (Scanner.ofText text)) ts r s) :
    lexWith config text = r.map (fun t => ts ++ [t]) ∧
      (collect (Tracked.start config (Scanner.ofText text))).2 = s ∧
      lexTrace config text =
        (lexWith config text, events (ts.length + 1) (Tracked.start config (Scanner.ofText text))) := by
  have hcollect := collect_of_reads h h.length_lt_horizon
  refine ⟨congrArg Prod.fst hcollect, congrArg Prod.snd hcollect, ?_⟩
  rw [lexTrace, collect_traced h h.length_lt_horizon]
  rfl

theorem logged_of_reads {out raws : List Token} {r : Reply} {failure : Option LexError} {s : Tracked Scanner}
    (hlexed : Reads (Tracked.start config (Scanner.ofText text)) out r s)
    (hpulled : replies (raws.length + failure.toList.length) (Scanner.ofText text) =
      raws.map .ok ++ failure.toList.map .error)
    (hleft : s.source = after (raws.length + failure.toList.length) (Scanner.ofText text))
    (htaken : ((Tracker.start config).takings raws).map Taken.raw = raws)
    (hevents : events (out.length + 1) (Tracked.start config (Scanner.ofText text)) =
      ((Tracker.start config).takings raws).flatMap Taken.events) : Logged config text raws failure := by
  obtain ⟨-, hs, htrace⟩ := lexTrace_of_reads hlexed
  exact ⟨hpulled, hs ▸ hleft, htaken, hevents ▸ htrace⟩

/-- A run up to the end token takes all raw tokens. -/
theorem logged_of_ended {raws out : List Token} {final : Token} {t : Tracker} {s : Scanner} {s' : Tracked Scanner}
    (hreads : Reads (Scanner.ofText text) raws (.ok final) s)
    (hrun : (Tracker.start config).Run (raws ++ [final]) (out ++ [final]) t)
    (hlexed : Reads (Tracked.start config (Scanner.ofText text)) out (.ok final) s') :
    Logged config text (raws ++ [final]) none := by
  have hraws : replies (raws ++ [final]).length (Scanner.ofText text) = (raws ++ [final]).map .ok := by
    simpa using hreads.replies_eq
  have hafter := (Tracked.replies_run hrun hraws).2
  have hevents := Tracked.events_run hrun hraws
  rw [List.length_append, List.length_singleton] at hafter hevents
  have hleft : s' = _ := hlexed.after_eq.symm.trans hafter
  exact logged_of_reads hlexed (by simpa using hraws) (by simp [hleft]) hrun.map_raw_takings hevents

/-- An error of the scanner brings no event. -/
theorem logged_of_failed {raws out : List Token} {e : LexError} {t : Tracker} {s : Scanner} {s' : Tracked Scanner}
    (hreads : Reads (Scanner.ofText text) raws (.error e) s) (hrun : (Tracker.start config).Run raws out t)
    (hlexed : Reads (Tracked.start config (Scanner.ofText text)) out (.error e) s') :
    Logged config text raws (some e) := by
  have hread : Reads (Scanner.ofText text) (raws ++ []) (.error e) s := by simpa using hreads
  obtain ⟨hraws, hlast⟩ := hread.split
  cases hlast with
  | stop hpull _ =>
      have hidle := hrun.idle (Tracker.idle_start config) hreads.isEnd_eq_false
      have hafter := (Tracked.replies_run hrun hraws).2
      have hevents := Tracked.events_run hrun hraws
      have hleft := hlexed.after_eq
      have hstopped : s'.source = s := by
        rw [← hleft, Tracked.start, after_add, hafter, after, after]
        exact congrArg (·.2.source) (Tracked.pull_of_error (s := ⟨t, _⟩) hidle hpull)
      refine logged_of_reads hlexed hreads.replies_eq (hstopped.trans hreads.after_eq.symm) hrun.map_raw_takings ?_
      rw [Tracked.start, events_add, hevents, hafter, events, events, Tracked.report_of_error hidle hpull]
      simp

/-- A line that is refused brings the event of its first token. -/
theorem logged_of_refused {before later out : List Token} {raw : Token} {r : Reply} {d : RaggedDedent} {t : Tracker}
    {s : Scanner} {s' : Tracked Scanner} (hreads : Reads (Scanner.ofText text) (before ++ raw :: later) r s)
    (hrun : (Tracker.start config).Run before out t) (hd : t.effect raw = .error d)
    (hlexed : Reads (Tracked.start config (Scanner.ofText text)) out (.error (.raggedDedent d)) s') :
    Logged config text (before ++ [raw]) none := by
  obtain ⟨hraws, hlater⟩ := hreads.split
  have hend : ∀ u ∈ before, u.isEnd = false := fun u hu => hreads.isEnd_eq_false u (by simp [hu])
  obtain ⟨s'', hrefused, hsource⟩ :=
    Tracked.exists_reading_of_refused (Tracker.idle_start config) hrun hd hreads
  have hsame : s' = s'' := hlexed.after_eq.symm.trans hrefused.after_eq
  have htakings := hrun.takings_append [raw]
  rw [Tracker.takings_refused hd] at htakings
  cases hlater with
  | token hpull _ _ =>
      have hidle := hrun.idle (Tracker.idle_start config) hend
      have hafter := (Tracked.replies_run hrun hraws).2
      refine logged_of_reads hlexed ?_ (by simpa [hsame] using hsource) ?_ ?_
      · simp [replies_add, hraws, replies, hpull]
      · rw [htakings, List.map_append, hrun.map_raw_takings]
        rfl
      · rw [Tracked.start, events_add, Tracked.events_run hrun hraws, hafter, events, events,
          Tracked.report_of_refused hidle hpull hd, htakings, List.flatMap_append]
        rfl

/-- The events of markers are those of the markers that were handed out. -/
theorem Tracker.Run.forall₂_markers {t t' : Tracker} {raws out : List Token} (h : t.Run raws out t')
    (hraw : ∀ raw ∈ raws, raw.kind.isSynthetic = false) :
    List.Forall₂ (fun event m => ∃ raw ∈ raws, (m = raw.blockOpen ∨ m = raw.blockDedent) ∧
        event = .synthesized m.kind raw.line raw.column)
      (((t.takings raws).flatMap Taken.events).filter Event.isMarker) (out.filter (·.kind.isSynthetic)) := by
  have hmem : ∀ p ∈ t.takings raws, p.raw ∈ raws := by
    intro p hp
    rw [← h.map_raw_takings]
    exact List.mem_map_of_mem hp
  rw [← h.tokens_takings]
  refine Taken.forall₂_markers (fun p hp => hraw _ (hmem p hp)) fun p hp m hm => ?_
  have hmarker := Tracker.mem_takings p hp m hm
  refine ⟨?_, p.raw, hmem p hp, hmarker, rfl⟩
  rcases hmarker with rfl | rfl <;> rfl

/-- Behind the event of a token that is refused there is none, and on its line there is none of a marker. -/
theorem Tracker.Run.refused_last {t t' : Tracker} {before out : List Token} {first : Token} {d : RaggedDedent}
    (h : t.Run before out t') (hd : t'.effect first = .error d) (hbefore : ∀ raw ∈ before, raw.line < first.line) :
    ((t.takings (before ++ [first])).flatMap Taken.events).getLast? =
        some (.scanned first.kind first.line first.column) ∧
      ∀ kind column,
        .synthesized kind first.line column ∉ (t.takings (before ++ [first])).flatMap Taken.events := by
  have hend := (Tracker.effect_eq_error hd).2.1
  have hlast : (Taken.mk first []).events = [.scanned first.kind first.line first.column] := by
    simp [Taken.events, hend]
  rw [h.takings_append, Tracker.takings_refused hd, List.flatMap_append, List.flatMap_singleton, hlast]
  refine ⟨List.getLast?_concat, fun kind column hmem => ?_⟩
  rcases List.mem_append.mp hmem with hmem | hmem
  · obtain ⟨p, hp, hevent⟩ := List.mem_flatMap.mp hmem
    have hraw : p.raw ∈ before := h.map_raw_takings ▸ List.mem_map_of_mem hp
    have hline := Taken.line_of_mem_events hevent
    exact (hbefore _ hraw).ne hline.symm
  · simp at hmem

end Logged

/-- A trace goes through the raw tokens that were taken, one after another. Each brings its own event, unless it is
the end token, and then one for each marker that it causes, at its own place. The events of markers in the trace of a
result are those of its markers, in order. Where a line is refused, the trace ends with the first token of that line,
and no marker is reported on it. An error of the scanner is not reported. -/
theorem trace_reports_what_was_done (config : TrackerConfig) (text : String) :
    ∃ raws failure, Logged config text raws failure ∧
      (∀ p ∈ (Tracker.start config).takings raws, ∀ m ∈ p.markers, m = p.raw.blockOpen ∨ m = p.raw.blockDedent) ∧
      (∀ tokens, lexWith config text = .ok tokens → failure = none ∧
        tokens = ((Tracker.start config).takings raws).flatMap Taken.tokens ∧
        List.Forall₂ (fun event m => ∃ raw ∈ raws, (m = raw.blockOpen ∨ m = raw.blockDedent) ∧
            event = .synthesized m.kind raw.line raw.column)
          ((lexTrace config text).2.filter Event.isMarker) (tokens.filter (·.kind.isSynthetic))) ∧
      (∀ d, lexWith config text = .error (.raggedDedent d) → failure = none ∧
        ∃ before first, raws = before ++ [first] ∧ first.line = d.line ∧ first.column = d.column ∧
          (∀ raw ∈ before, raw.line < first.line) ∧
          (lexTrace config text).2.getLast? = some (.scanned first.kind first.line first.column) ∧
          ∀ kind column, .synthesized kind first.line column ∉ (lexTrace config text).2) ∧
      ∀ e, lexWith config text = .error e → (∀ d, e ≠ .raggedDedent d) → failure = some e := by
  obtain ⟨raws, r, s, hreads, -⟩ := (Scanner.ofText text).exists_reads
  obtain ⟨out, q, s', hreading, hlexed, -⟩ := Tracked.exists_reading (Tracker.idle_start config) hreads
  obtain ⟨final, hrows⟩ := Scanner.exists_rawTokens hreads
  have hlex := (lexTrace_of_reads hlexed).1
  cases hreading with
  | @ended _ final out t hrun =>
      have hlogged := logged_of_ended hreads hrun hlexed
      have hraw := (Scanner.rawTokens_of_reads hreads rfl).isSynthetic_eq_false
      refine ⟨_, none, hlogged, Tracker.mem_takings, ?_, by simp [hlex, Except.map], by simp [hlex, Except.map]⟩
      intro tokens htokens
      obtain rfl : out ++ [final] = tokens := Except.ok.inj (hlex.symm.trans htokens)
      rw [hlogged.trace]
      exact ⟨rfl, hrun.tokens_takings.symm, hrun.forall₂_markers hraw⟩
  | @failed _ e out t hrun =>
      obtain ⟨line, column, part, rfl⟩ := Scanner.unexpectedCharacter_of_reads hreads rfl
      exact ⟨raws, _, logged_of_failed hreads hrun hlexed, Tracker.mem_takings, by simp [hlex, Except.map],
        by simp [hlex, Except.map], by simp [hlex, Except.map]⟩
  | @refused before first later r out t d hrun hd =>
      have hlogged := logged_of_refused hreads hrun hd hlexed
      obtain ⟨-, -, hstart, hmeasure⟩ := Tracker.effect_eq_error hd
      obtain ⟨-, -, -, hplace⟩ := Tracker.measure_eq_error hmeasure
      rw [List.append_assoc, List.cons_append] at hrows
      have hbefore := hrun.line_lt hrows hstart
      refine ⟨_, none, hlogged, Tracker.mem_takings, by simp [hlex, Except.map], ?_, ?_⟩
      · intro d' hd'
        obtain rfl : d = d' := by simpa [hlex, Except.map] using hd'
        rw [hlogged.trace]
        exact ⟨rfl, before, first, rfl, by rw [hplace], by rw [hplace], hbefore, hrun.refused_last hd hbefore⟩
      · intro e he hother
        have he : (.raggedDedent d : LexError) = e := by simpa [hlex, Except.map] using he
        exact absurd he.symm (hother d)

/-- The third line stands on no level. -/
theorem trace_reports_what_was_done_ragged :
    let text := Sample.textAt [0, 6, 4]
    let d : RaggedDedent := ⟨3, 4, 0⟩
    lexTrace .strict text = (.error (.raggedDedent d),
        [.scanned .name 1 0, .scanned .lineBreak 1 2, .scanned .name 2 6, .synthesized .blockOpen 2 6,
          .scanned .lineBreak 2 8, .scanned .name 3 4]) ∧
      ∃ before first, Logged .strict text (before ++ [first]) none ∧ first.line = 3 ∧ first.column = 4 ∧
        ∀ raw ∈ before, raw.line < 3 := by
  intro text d
  have htrace : lexTrace .strict text = (.error (.raggedDedent d),
      [.scanned .name 1 0, .scanned .lineBreak 1 2, .scanned .name 2 6, .synthesized .blockOpen 2 6,
        .scanned .lineBreak 2 8, .scanned .name 3 4]) := by decide +kernel
  obtain ⟨raws, failure, hlogged, -, -, hragged, -⟩ := trace_reports_what_was_done .strict text
  have hlex : lexWith .strict text = .error (.raggedDedent d) :=
    congrArg Prod.fst (hlogged.trace.symm.trans htrace)
  obtain ⟨rfl, before, first, rfl, hline, hcolumn, hbefore, -⟩ := hragged d hlex
  exact ⟨htrace, before, first, hlogged, hline, hcolumn, fun raw hraw => (hbefore raw hraw).trans_eq hline⟩

end LayoutRule
