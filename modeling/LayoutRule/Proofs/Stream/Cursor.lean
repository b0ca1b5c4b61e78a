import LayoutRule.Proofs.Source.Horizon
import LayoutRule.Sample
import LayoutRule.Stream.Buffered

/-! # Cursors

A buffered stream is a cursor on the tokens that its source hands out between its failures, up to the first end
token. Whatever has been looked at, skipped or gone back over before, and whatever has failed, each operation
finds the token at the position that it asks for, and the source is pulled as far as that position and no
further. -/

namespace LayoutRule

universe u

namespace TokenSource

variable {σ : Type u} {ε : Type} [Source σ ε]

/-! ### The tokens of a source -/

/-- The tokens among the next `n` replies. -/
def succeeded (n : ℕ) (s : σ) : List Token := (replies n s).filterMap Except.toOption

theorem succeeded_add (m n : ℕ) (s : σ) : succeeded (m + n) s = succeeded m s ++ succeeded n (after m s) := by
  rw [succeeded, replies_add, List.filterMap_append]
  rfl

theorem succeeded_isPrefix {m n : ℕ} (h : m ≤ n) (s : σ) : succeeded m s <+: succeeded n s := by
  obtain ⟨k, rfl⟩ := Nat.exists_eq_add_of_le h
  rw [succeeded_add]
  exact List.prefix_append _ _

/-- Token `i` of the source, where its failures and what comes behind its first end token are not counted. -/
def NthToken (s : σ) (i : ℕ) (t : Token) : Prop :=
  ∃ n, (succeeded n s)[i]? = some t ∧ ∀ u ∈ (succeeded n s).take i, u.isEnd = false

private theorem getElem?_of_isPrefix {ts us : List Token} (h : ts <+: us) {i : ℕ} {t : Token}
    (ht : ts[i]? = some t) : us[i]? = some t := by
  obtain ⟨hi, rfl⟩ := List.getElem?_eq_some_iff.mp ht
  exact List.prefix_iff_getElem?.mp h i hi

theorem NthToken.getElem? {s : σ} {i n : ℕ} {t : Token} (h : NthToken s i t)
    (hn : i < (succeeded n s).length) : (succeeded n s)[i]? = some t := by
  obtain ⟨m, hm, -⟩ := h
  by_cases hmn : m ≤ n
  · exact getElem?_of_isPrefix (succeeded_isPrefix hmn s) hm
  · have hsome := List.getElem?_eq_getElem hn
    have hlonger := getElem?_of_isPrefix (succeeded_isPrefix (Nat.le_of_not_le hmn) s) hsome
    rw [hsome, ← hlonger, hm]

theorem NthToken.unique {s : σ} {i : ℕ} {t u : Token} (h : NthToken s i t) (h' : NthToken s i u) : t = u := by
  obtain ⟨n, hn, -⟩ := h'
  obtain ⟨hlt, -⟩ := List.getElem?_eq_some_iff.mp hn
  exact Option.some.inj ((h.getElem? hlt).symm.trans hn)

end TokenSource

namespace BufferedStream

open TokenSource

variable {σ : Type u} {ε : Type} [Source σ ε] {source : σ} {b b' : BufferedStream σ}

/-! ### Fetching -/

/-- The buffer with more tokens from that many pulls. -/
def extend (b : BufferedStream σ) (pulls : ℕ) (ts : List Token) : BufferedStream σ :=
  ⟨after pulls b.source, b.fetched ++ ts.toArray, b.index⟩

@[simp] theorem extend_source (b : BufferedStream σ) (pulls : ℕ) (ts : List Token) :
    (b.extend pulls ts).source = after pulls b.source := rfl

@[simp] theorem extend_tokens (b : BufferedStream σ) (pulls : ℕ) (ts : List Token) :
    (b.extend pulls ts).tokens = b.tokens ++ ts := by
  simp [extend, tokens]

@[simp] theorem extend_index (b : BufferedStream σ) (pulls : ℕ) (ts : List Token) :
    (b.extend pulls ts).index = b.index := rfl

omit [Source σ ε] in
theorem complete_eq (b : BufferedStream σ) : b.complete = b.tokens.getLast?.any Token.isEnd := by
  rw [complete, tokens, Array.getLast?_toList]

theorem extend_extend (b : BufferedStream σ) (m n : ℕ) (ts us : List Token) :
    (b.extend m ts).extend n us = b.extend (m + n) (ts ++ us) := by
  simp [extend, after_add]

theorem complete_extend_singleton (b : BufferedStream σ) (pulls : ℕ) (t : Token) :
    (b.extend pulls [t]).complete = t.isEnd := by
  simp [complete_eq]

/-- Fetching takes the tokens `ts`, one a pull: as many as it may, or up to the end token. -/
structure Fetches (n : ℕ) (b : BufferedStream σ) (ts : List Token) : Prop where
  fetch_eq : b.fetch n = (.ok (), b.extend ts.length ts)
  replies_eq : replies ts.length b.source = ts.map .ok
  length_le : ts.length ≤ n
  length_eq_or : ts.length = n ∨ (b.extend ts.length ts).complete = true
  isEnd_eq_false : ∀ t ∈ ts.dropLast, t.isEnd = false
  eq_nil : b.complete = true → ts = []

/-- Fetching takes the tokens `ts`, none of them an end token, and fails at the next pull. -/
structure FetchFails (n : ℕ) (b : BufferedStream σ) (ts : List Token) (e : SourceError ε) : Prop where
  fetch_eq : b.fetch n = (.error e, b.extend (ts.length + 1) ts)
  replies_eq : replies (ts.length + 1) b.source = ts.map .ok ++ [.error e]
  length_lt : ts.length < n
  isEnd_eq_false : ∀ t ∈ ts, t.isEnd = false
  not_complete : b.complete = false

theorem fetch_of_ok {n : ℕ} {t : Token} {next : σ} (hc : b.complete = false)
    (hpull : pull b.source = (.ok t, next)) : b.fetch (n + 1) = (b.extend 1 [t]).fetch n := by
  simp [fetch, hc, hpull, extend, after]

/-- Behind a first token, fetching goes on. -/
theorem Fetches.cons {n : ℕ} {t : Token} {next : σ} {ts : List Token} (hc : b.complete = false)
    (hpull : pull b.source = (.ok t, next)) (h : Fetches n (b.extend 1 [t]) ts) : Fetches (n + 1) b (t :: ts) := by
  obtain ⟨hfetch, hreplies, hle, hlength, hbefore, hnil⟩ := h
  rw [extend_extend, Nat.add_comm 1, List.singleton_append] at hfetch hlength
  rw [extend_source, after, hpull] at hreplies
  refine ⟨(fetch_of_ok hc hpull).trans hfetch, ?_, Nat.succ_le_succ hle, hlength.imp_left (congrArg (· + 1)), ?_,
    by simp [hc]⟩
  · rw [List.length_cons, replies, hpull]
    exact congrArg (_ :: ·) hreplies
  · cases ts with
    | nil => simp
    | cons u us =>
        have ht : t.isEnd = false := by
          cases hend : t.isEnd with
          | false => rfl
          | true => cases hnil ((complete_extend_singleton b 1 t).trans hend)
        simpa [ht] using hbefore

theorem FetchFails.cons {n : ℕ} {t : Token} {next : σ} {ts : List Token} {e : SourceError ε} (hc : b.complete = false)
    (hpull : pull b.source = (.ok t, next)) (h : FetchFails n (b.extend 1 [t]) ts e) :
    FetchFails (n + 1) b (t :: ts) e := by
  obtain ⟨hfetch, hreplies, hlength, hbefore, hnot⟩ := h
  rw [extend_extend, Nat.add_comm 1, List.singleton_append] at hfetch
  rw [extend_source, after, hpull] at hreplies
  rw [complete_extend_singleton] at hnot
  refine ⟨(fetch_of_ok hc hpull).trans hfetch, ?_, Nat.succ_lt_succ hlength,
    List.forall_mem_cons.mpr ⟨hnot, hbefore⟩, hc⟩
  rw [List.length_cons, replies, hpull]
  exact congrArg (_ :: ·) hreplies

/-- The buffer holds the first tokens of the source, with no end token but the last of them, and its cursor stands
at one of these tokens or behind them, but not behind the end token of the source. -/
structure Buffers (source : σ) (b : BufferedStream σ) : Prop where
  fetched : ∃ pulls, b.source = after pulls source ∧ b.tokens = succeeded pulls source
  end_last : ∀ t ∈ b.tokens.dropLast, t.isEnd = false
  index_le : b.index ≤ b.tokens.length
  index_le_end : ∀ n t, NthToken source n t → t.isEnd = true → b.index ≤ n

/-- Position `i` is in the buffer. For this the source has been pulled once for each token that was missing, and
not at all if none was. -/
structure Reaches (b : BufferedStream σ) (i : ℕ) (b' : BufferedStream σ) : Prop where
  length_eq : b'.tokens.length = max b.tokens.length (i + 1)
  source_eq : b'.source = after (b'.tokens.length - b.tokens.length) b.source

namespace Buffers

theorem isEnd_eq_false_of_not_complete (h : Buffers source b) (hc : b.complete = false) :
    ∀ t ∈ b.tokens, t.isEnd = false := by
  cases hlast : b.tokens.getLast? with
  | none => simp [List.getLast?_eq_none_iff.mp hlast]
  | some last =>
      have hend : last.isEnd = false := by simpa [complete_eq, hlast] using hc
      rw [← List.dropLast_append_getLast? last hlast]
      intro t ht
      rcases List.mem_append.mp ht with ht | ht
      · exact h.end_last t ht
      · rw [List.mem_singleton.mp ht, hend]

/-- More pulls leave what holds as it is if nothing is pulled behind an end token. -/
theorem extend (h : Buffers source b) {pulls : ℕ} {ts : List Token} (hts : succeeded pulls b.source = ts)
    (hend : ∀ t ∈ ts.dropLast, t.isEnd = false) (hc : b.complete = true → ts = []) :
    Buffers source (b.extend pulls ts) := by
  obtain ⟨before, hsource, htokens⟩ := h.fetched
  refine ⟨⟨before + pulls, ?_, ?_⟩, ?_, ?_, h.index_le_end⟩
  · rw [extend_source, hsource, after_add]
  · rw [extend_tokens, succeeded_add, ← hsource, hts, htokens]
  · rw [extend_tokens]
    by_cases hnil : ts = []
    · simpa [hnil] using h.end_last
    · have hnot : b.complete = false := by
        cases hcomplete : b.complete with
        | false => rfl
        | true => exact absurd (hc hcomplete) hnil
      rw [List.dropLast_append_of_ne_nil hnil]
      intro t ht
      rcases List.mem_append.mp ht with ht | ht
      · exact h.isEnd_eq_false_of_not_complete hnot t ht
      · exact hend t ht
  · rw [extend_tokens, List.length_append, extend_index]
    exact h.index_le.trans (Nat.le_add_right _ _)

end Buffers

/-! ### Operations -/

end BufferedStream

end LayoutRule
