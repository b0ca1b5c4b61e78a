import LayoutRule.Proofs.Scanner.Account
import LayoutRule.Proofs.Tracker.Rows

/-! # Moments

The first token of a row is handed out in answer to one pull only, and behind that answer the columns of the
row are open. -/

namespace LayoutRule

open TokenSource

universe u

variable {σ : Type u} {ε : Type} [Source σ ε]

/-! ### The first tokens of rows -/

namespace Tracker

/-- A run over the raw tokens comes to `first` and measures it, and it leaves the columns `opened` open behind
it. -/
def Reaches (t : Tracker) (raws : List Token) (first : Token) (opened : List ℕ) : Prop :=
  ∃ before later out t' e, raws = before ++ first :: later ∧ t.Run before out t' ∧ t'.Idle ∧
    t'.effect first = .ok e ∧ t'.measure first = .ok e ∧ e.opened = opened

theorem Reaches.append {t t' : Tracker} {raws raws' out : List Token} {first : Token} {opened : List ℕ}
    (hrun : t.Run raws out t') (h : t'.Reaches raws' first opened) : t.Reaches (raws ++ raws') first opened := by
  obtain ⟨before, later, out', t'', e, rfl, hbefore, hi, he, hmeasure, hopened⟩ := h
  exact ⟨raws ++ before, later, out ++ out', t'', e, by simp, hrun.append hbefore, hi, he, hmeasure, hopened⟩

theorem measure_congr {t u : Tracker} (hconfig : t.config = u.config) (hopened : t.opened = u.opened)
    (raw : Token) : t.measure raw = u.measure raw := by
  simp [measure, top, levels, nearest, hconfig, hopened]

/-- Within a line nothing is opened or closed. -/
theorem Run.within_line {t t' : Tracker} {rest out : List Token} (h : t.Run rest out t')
    (hrest : ∀ u ∈ rest, u.kind.isOrdinary = true) (hat : t.atLineStart = false) :
    t'.opened = t.opened := by
  induction h with
  | nil => rfl
  | @cons t raw raws e out t' _ he _ ih =>
      obtain ⟨hbreak, hend⟩ := content_of_isOrdinary (hrest raw (by simp))
      rw [t.effect_of_content hbreak hend, hat, if_neg (by decide)] at he
      obtain rfl := Except.ok.inj he
      exact ih (fun u hu => hrest u (by simp [hu])) (t.lineStartAfter_of_content hbreak hend)

end Tracker

/-- Whatever run goes over the raw tokens of rows, it comes to the first token of each. -/
theorem Rows.reaches {config : TrackerConfig} {line : ℕ} {opened : List ℕ} {raws out : List Token}
    {rows : List Row} (h : Rows config line opened raws out rows) {t t' : Tracker} {out' : List Token}
    (hrun : t.Run raws out' t') (hconfig : t.config = config) (hopened : t.opened = opened)
    (hstart : t.atLineStart = true ∨ ∀ u ∈ raws.head?, u.kind.isOrdinary = false) :
    ∀ row ∈ rows, ∃ first rest, row.tokens = first :: rest ∧ first.kind.isOrdinary = true ∧
      t.Reaches raws first row.opened := by
  induction h generalizing t out' with
  | finish => simp
  | @blank line next opened lb raws out rows hk _ _ ih =>
      intro row hrow
      cases hrun with
      | cons hi he hrest =>
          have hlb := Tracker.Run.cons hi he .nil
          rw [t.effect_of_lineBreak hk] at he
          obtain rfl := Except.ok.inj he
          obtain ⟨first, rest, htokens, hfirst, hreach⟩ :=
            ih hrest hconfig hopened (Or.inl (t.lineStartAfter_of_lineBreak hk)) row hrow
          exact ⟨first, rest, htokens, hfirst, hreach.append hlb⟩
  | @row line first rest raws out rows t₀ e hconfig₀ hmeasure hall hhead _ ih =>
      have hfirst := (hall first (by simp)).1
      obtain ⟨hbreak, hend⟩ := content_of_isOrdinary hfirst
      have hat : t.atLineStart = true := hstart.resolve_right fun hnone => by
        simp [hfirst] at hnone
      intro row hrow
      rw [List.cons_append] at hrun
      cases hrun with
      | @cons _ _ _ e' _ _ hi he hlater =>
          have hmeasured : t.measure first = .ok e := by
            rw [Tracker.measure_congr (hconfig.trans hconfig₀.symm) hopened, hmeasure]
          have heffect : t.effect first = .ok e := by
            rw [t.effect_of_content hbreak hend, if_pos hat, hmeasured]
          obtain rfl : e' = e := Except.ok.inj (he.symm.trans heffect)
          rcases List.mem_cons.mp hrow with rfl | hrow
          · exact ⟨first, rest, rfl, hfirst, [], rest ++ raws, [], t, e', rfl, .nil, hi, he, hmeasured, rfl⟩
          · obtain ⟨outLine, outLater, u, -, hline, hbelow⟩ := hlater.split
            have hrest : ∀ v ∈ rest, v.kind.isOrdinary = true := fun v hv => (hall v (by simp [hv])).1
            have hopenedLine := hline.within_line hrest (t.lineStartAfter_of_content hbreak hend)
            obtain ⟨first', rest', htokens, hfirst', hreach⟩ :=
              ih hbelow (hline.config_eq.trans hconfig) hopenedLine (Or.inr hhead) row hrow
            exact ⟨first', rest', htokens, hfirst', hreach.append (.cons hi he hline)⟩

/-! ### The pull that hands out a token -/

namespace Tracked

/-- A pull of the tracked source takes the raw token from the source. -/
def Takes (s : Tracked σ) (raw : Token) : Prop :=
  s.tracker.ready? ε = none ∧ (TokenSource.pull s.source).1 = .ok raw

/-- A token that a run comes to is taken and measured in one pull. It is handed out behind its markers, and then
the columns are open that the run leaves open. -/
theorem exists_pull_of_reaches {t : Tracker} {raws : List Token} {first : Token} {opened : List ℕ}
    (h : t.Reaches raws first opened) {source : σ} (hraws : replies raws.length source = raws.map .ok) :
    ∃ n, (TokenSource.pull (after n (Tracked.mk t source))).1 = .ok first ∧
      (after (n + 1) (Tracked.mk t source)).tracker.opened = opened ∧
      ∃ k ≤ n, Takes (after k (Tracked.mk t source)) first ∧
        ∃ e, (after k (Tracked.mk t source)).tracker.measure first = .ok e ∧ e.opened = opened := by
  obtain ⟨before, later, out, u, e, rfl, hrun, hi, he, hmeasure, rfl⟩ := h
  have hlt : before.length < (before ++ first :: later).length := by simp
  have hbefore : replies before.length source = before.map .ok := by
    rw [← take_replies hlt.le, hraws, List.map_append]
    exact List.take_left' (by simp)
  have hpull : (TokenSource.pull (after before.length source)).1 = .ok first := by
    have hget := getElem?_replies hlt source
    rw [hraws] at hget
    simpa using hget.symm
  obtain ⟨-, hafter⟩ := replies_run hrun hbefore
  obtain ⟨hturn, hsettled⟩ := replies_turn hi he (Prod.ext hpull rfl)
  -- What stands before the token in the run comes first, and then its markers.
  refine ⟨out.length + e.markers.length, ?_, ?_, out.length, Nat.le_add_right _ _, ?_⟩
  · have hget := getElem?_replies (Nat.lt_succ_self e.markers.length)
      (Tracked.mk u (after before.length source))
    rw [hturn] at hget
    rw [after_add, hafter]
    simpa using hget.symm
  · rw [Nat.add_assoc, after_add, hafter, hsettled]
    rfl
  · rw [hafter]
    exact ⟨⟨hi.ready?, hpull⟩, e, hmeasure, rfl⟩

theorem after_of_ended {s : Tracked σ} {final : Token} (hs : s.tracker.status = .ended final)
    (hp : s.tracker.pending = []) (n : ℕ) : after n s = s := by
  induction n with
  | zero => rfl
  | succ n ih =>
      have hpull : (TokenSource.pull s).2 = s := congrArg Prod.snd (pull_of_ended hs hp)
      rw [after, hpull, ih]

section WholeRun

variable {t t' : Tracker} {raws out : List Token} {final : Token} {source : σ}

/-- Behind the tokens of a whole run nothing but the end token is handed out. -/
private theorem lt_length_of_reply (hrun : t.Run (raws ++ [final]) out t') (hend : final.isEnd = true)
    (hraws : replies (raws ++ [final]).length source = (raws ++ [final]).map .ok) {m : ℕ} {u : Token}
    (hu : u.isEnd = false) (hreply : (TokenSource.pull (after m (Tracked.mk t source))).1 = .ok u) :
    m < out.length := by
  by_contra hm
  obtain ⟨k, rfl⟩ := Nat.exists_eq_add_of_le (Nat.le_of_not_lt hm)
  obtain ⟨_, _, t'', -, -, hlast⟩ := hrun.split
  cases hlast with
  | @cons _ _ _ e _ _ _ _ hnil =>
      cases hnil
      have hended : (t''.settle final e).status = .ended final := by simp [Tracker.settle, hend]
      rw [after_add, (replies_run hrun hraws).2, after_of_ended hended rfl] at hreply
      have hpolicy := congrArg Prod.fst
        (pull_of_ended (s := ⟨t''.settle final e, after (raws ++ [final]).length source⟩) hended rfl)
      cases hafterEnd : (t''.settle final e).config.afterEnd with
      | fail => cases hreply.symm.trans (hpolicy.trans (by rw [hafterEnd]))
      | again =>
          obtain rfl := Except.ok.inj (hreply.symm.trans (hpolicy.trans (by rw [hafterEnd])))
          simp [hend] at hu

/-- The tokens of a whole run are distinct, markers apart, if its raw tokens are. -/
private theorem index_unique (hrun : t.Run raws out t') (hdistinct : raws.Nodup)
    (hraw : ∀ u ∈ raws, u.kind.isSynthetic = false) {u : Token} (hu : u.kind.isSynthetic = false) {m n : ℕ}
    (hm : out[m]? = some u) (hn : out[n]? = some u) : m = n := by
  rw [← hrun.filter_isSynthetic_eq_raws hraw, List.Nodup, List.pairwise_filter,
    List.pairwise_iff_getElem] at hdistinct
  obtain ⟨hmlt, hm⟩ := List.getElem?_eq_some_iff.mp hm
  obtain ⟨hnlt, hn⟩ := List.getElem?_eq_some_iff.mp hn
  rcases Nat.lt_trichotomy m n with hlt | heq | hlt
  · exact absurd (hm.trans hn.symm) (hdistinct m n hmlt hnlt hlt (by simp [hm, hu]) (by simp [hn, hu]))
  · exact heq
  · exact absurd (hn.trans hm.symm) (hdistinct n m hnlt hmlt hlt (by simp [hn, hu]) (by simp [hm, hu]))

/-- A token of a statement is handed out once only if the raw tokens are distinct. -/
theorem pull_unique (hrun : t.Run (raws ++ [final]) out t') (hend : final.isEnd = true)
    (hraws : replies (raws ++ [final]).length source = (raws ++ [final]).map .ok)
    (hdistinct : (raws ++ [final]).Nodup) (hraw : ∀ u ∈ raws ++ [final], u.kind.isSynthetic = false)
    {u : Token} (hu : u.kind.isOrdinary = true) {m n : ℕ}
    (hm : (TokenSource.pull (after m (Tracked.mk t source))).1 = .ok u)
    (hn : (TokenSource.pull (after n (Tracked.mk t source))).1 = .ok u) : m = n := by
  have hplace (k : ℕ) (hk : (TokenSource.pull (after k (Tracked.mk t source))).1 = .ok u) :
      out[k]? = some u := by
    have hlt := lt_length_of_reply hrun hend hraws (content_of_isOrdinary hu).2 hk
    have hget := getElem?_replies hlt (Tracked.mk t source)
    rw [(replies_run hrun hraws).1, hk, List.getElem?_map] at hget
    obtain ⟨v, hv, heq⟩ := Option.map_eq_some_iff.mp hget
    rw [hv, Except.ok.inj heq]
  exact index_unique hrun hdistinct hraw (TokenKind.isSynthetic_eq_false hu) (hplace m hm) (hplace n hn)

end WholeRun

end Tracked

/-- The first token of each row of a text is taken and measured in one pull. It is handed out in answer to one pull
only, and then the columns of the row are open. -/
theorem Rows.exists_moment {config : TrackerConfig} {text : String} {raws out tokens : List Token}
    {rows : List Row} (hrows : Rows config 1 [] raws out rows) (hraws : tokenize text = .ok raws)
    (hlex : lexWith config text = .ok tokens) :
    let s := Tracked.start config (Scanner.ofText text)
    ∀ row ∈ rows, ∃ first rest n, row.tokens = first :: rest ∧
      (∀ m, (TokenSource.pull (after m s)).1 = .ok first ↔ m = n) ∧
      (after (n + 1) s).tracker.opened = row.opened ∧
      ∃ k ≤ n, (after k s).Takes first ∧
        ∃ e, (after k s).tracker.measure first = .ok e ∧ e.opened = row.opened := by
  intro s row hrow
  obtain ⟨raws', t', htokenize, hrun⟩ := exists_run_of_lexWith hlex
  obtain rfl : raws = raws' := Except.ok.inj (hraws.symm.trans htokenize)
  obtain ⟨first, rest, htokens, hfirst, hreach⟩ := hrows.reaches hrun rfl rfl (Or.inl rfl) row hrow
  obtain ⟨before, final, s', hreads, rfl⟩ := exists_reads_of_tokenize hraws
  have hreplies : replies (before ++ [final]).length (Scanner.ofText text) = (before ++ [final]).map .ok := by
    simpa using hreads.replies_eq
  have hdistinct : (before ++ [final]).Nodup :=
    (Scanner.pairwise_start_of_reads hreads rfl).2.imp fun hlt heq => by simp [heq] at hlt
  have hraw := (rawTokens_of_tokenize hraws).isSynthetic_eq_false
  obtain ⟨n, hn, hopened, htaken⟩ := Tracked.exists_pull_of_reaches hreach hreplies
  refine ⟨first, rest, n, htokens, fun m => ⟨fun hm => ?_, fun hm => hm ▸ hn⟩, hopened, htaken⟩
  exact Tracked.pull_unique hrun hreads.stops_eq_true hreplies hdistinct hraw hfirst hm hn

end LayoutRule
