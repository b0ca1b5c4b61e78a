import LayoutRule.Lexing
import Mathlib.Data.List.Basic

/-! # Draining a source

A reader of a whole source stops at the first end token or error. What it reads is a derivation over the
pulls; bounded draining and the filling of a buffer compute that derivation. -/

namespace LayoutRule.TokenSource

universe u

variable {σ : Type u} {ε : Type} [Source σ ε]

theorem take_replies {m n : ℕ} (h : m ≤ n) (s : σ) : (replies n s).take m = replies m s := by
  obtain ⟨k, rfl⟩ := Nat.exists_eq_add_of_le h
  rw [replies_add, List.take_left' (length_replies m s)]

theorem getElem?_replies {m n : ℕ} (h : m < n) (s : σ) :
    (replies n s)[m]? = some (pull (after m s)).1 := by
  obtain ⟨k, rfl⟩ := Nat.exists_eq_add_of_lt h
  rw [Nat.add_assoc, replies_add, List.getElem?_append_right (by simp)]
  simp [replies]

theorem replies_eq_append {n : ℕ} {s : σ} {before later : List (Reply ε)} {r : Reply ε}
    (h : replies n s = before ++ r :: later) :
    replies before.length s = before ∧ (pull (after before.length s)).1 = r := by
  have hn : n = before.length + (later.length + 1) := by simpa using congrArg List.length h
  rw [hn, replies_add] at h
  obtain ⟨hbefore, hlater⟩ := List.append_inj h (length_replies _ _)
  exact ⟨hbefore, (List.cons.inj hlater).1⟩

/-- Replies without an end token are tokens up to their end or up to an error. -/
theorem exists_tokens_before_error (rs : List (Reply ε)) (hend : ∀ t, .ok t ∈ rs → t.isEnd = false) :
    ∃ us : List Token, (∀ u ∈ us, u.isEnd = false) ∧
      (rs = us.map .ok ∨ ∃ e later, rs = us.map .ok ++ .error e :: later) := by
  induction rs with
  | nil => exact ⟨[], by simp, Or.inl rfl⟩
  | cons r rs ih =>
      cases r with
      | error e => exact ⟨[], by simp, Or.inr ⟨e, rs, rfl⟩⟩
      | ok t =>
          obtain ⟨us, hus, hsplit⟩ := ih fun u hu => hend u (List.mem_cons_of_mem _ hu)
          refine ⟨t :: us, List.forall_mem_cons.mpr ⟨hend t List.mem_cons_self, hus⟩, ?_⟩
          rcases hsplit with rfl | ⟨e, later, rfl⟩
          · exact Or.inl rfl
          · exact Or.inr ⟨e, later, rfl⟩

/-- A reader gets the tokens `ts`, none of them an end token, and then the reply at which it stops. -/
inductive Reads : σ → List Token → Reply ε → σ → Prop where
  | stop {s r s'} : pull s = (r, s') → r.stops = true → Reads s [] r s'
  | token {s t s' ts r s''} : pull s = (.ok t, s') → t.isEnd = false →
      Reads s' ts r s'' → Reads s (t :: ts) r s''

/-- The first tokens of a reading can be pulled on their own. -/
theorem Reads.split {s s' : σ} {before later : List Token} {r : Reply ε}
    (h : Reads s (before ++ later) r s') :
    replies before.length s = before.map .ok ∧ Reads (after before.length s) later r s' := by
  induction before generalizing s with
  | nil => exact ⟨rfl, h⟩
  | cons t before ih =>
      cases h with
      | token hp _ hrest =>
          obtain ⟨hreplies, hlater⟩ := ih hrest
          refine ⟨?_, ?_⟩
          · simp [replies, hp, hreplies]
          · simpa only [List.length_cons, after, hp] using hlater

/-- A reading goes on from tokens pulled before it. -/
theorem Reads.append {s s' : σ} {before later : List Token} {r : Reply ε}
    (hbefore : replies before.length s = before.map .ok) (hend : ∀ t ∈ before, t.isEnd = false)
    (h : Reads (after before.length s) later r s') : Reads s (before ++ later) r s' := by
  induction before generalizing s with
  | nil => exact h
  | cons t before ih =>
      simp only [List.length_cons, replies, List.map_cons, List.cons.injEq] at hbefore
      exact .token (Prod.ext hbefore.1 rfl) (hend t (by simp))
        (ih hbefore.2 (fun u hu => hend u (by simp [hu])) h)

/-- Replies that are tokens, and one behind them at which a reader stops, make a reading. -/
theorem reads_of_replies {s : σ} {ts : List Token} {r : Reply ε}
    (h : replies (ts.length + 1) s = ts.map .ok ++ [r]) (hend : ∀ t ∈ ts, t.isEnd = false)
    (hr : r.stops = true) : Reads s ts r (after (ts.length + 1) s) := by
  induction ts generalizing s with
  | nil =>
      have hfirst : (pull s).1 = r := by simpa [replies] using h
      exact .stop (Prod.ext hfirst rfl) hr
  | cons t ts ih =>
      simp only [List.length_cons, replies, List.map_cons, List.cons_append, List.cons.injEq] at h
      exact .token (Prod.ext h.1 rfl) (hend t (by simp)) (ih h.2 fun u hu => hend u (by simp [hu]))

theorem Reads.replies_eq {s s' : σ} {ts : List Token} {r : Reply ε} (h : Reads s ts r s') :
    replies (ts.length + 1) s = ts.map .ok ++ [r] := by
  induction h with
  | stop hp => simp [replies, hp]
  | token hp _ _ ih =>
      rw [List.length_cons, replies, hp, ih]
      rfl

theorem Reads.stops_eq_true {s s' : σ} {ts : List Token} {r : Reply ε} (h : Reads s ts r s') :
    r.stops = true := by
  induction h with
  | stop _ hr => exact hr
  | token _ _ _ ih => exact ih

theorem Reads.isEnd_eq_false {s s' : σ} {ts : List Token} {r : Reply ε} (h : Reads s ts r s') :
    ∀ t ∈ ts, t.isEnd = false := by
  induction h with
  | stop => simp
  | token _ ht _ ih => simpa using ⟨ht, ih⟩

/-- A source is read in one way only. -/
theorem Reads.unique {s s' s'' : σ} {ts us : List Token} {r q : Reply ε} (h : Reads s ts r s')
    (h' : Reads s us q s'') : ts = us ∧ r = q := by
  induction h generalizing us with
  | stop hp hr =>
      cases h' with
      | stop hp' =>
          rw [hp] at hp'
          exact ⟨rfl, (Prod.mk.inj hp').1⟩
      | token hp' hu =>
          rw [hp] at hp'
          obtain ⟨rfl, -⟩ := Prod.mk.inj hp'
          simp [Reply.stops, hu] at hr
  | token hp ht _ ih =>
      cases h' with
      | stop hp' hq =>
          rw [hp] at hp'
          obtain ⟨rfl, -⟩ := Prod.mk.inj hp'
          simp [Reply.stops, ht] at hq
      | token hp' _ hrest =>
          rw [hp] at hp'
          obtain ⟨heq, rfl⟩ := Prod.mk.inj hp'
          obtain rfl := Except.ok.inj heq
          obtain ⟨rfl, rfl⟩ := ih hrest
          exact ⟨rfl, rfl⟩

/-- A source that stops within `n` replies is read in fewer than `n` tokens. -/
theorem exists_reads {n : ℕ} {s : σ} (h : ∃ r ∈ replies n s, r.stops = true) :
    ∃ ts r s', Reads s ts r s' ∧ ts.length < n := by
  induction n generalizing s with
  | zero => simp [replies] at h
  | succ n ih =>
      cases hp : pull s with
      | mk r s' =>
          by_cases hr : r.stops = true
          · exact ⟨[], r, s', .stop hp hr, Nat.succ_pos n⟩
          · have hlater : ∃ r ∈ replies n s', r.stops = true := by
              obtain ⟨q, hq, hstops⟩ := h
              simp only [replies, hp, List.mem_cons] at hq
              rcases hq with rfl | hq
              · exact absurd hstops hr
              · exact ⟨q, hq, hstops⟩
            obtain ⟨ts, q, s'', hreads, hlength⟩ := ih hlater
            cases r with
            | error e => simp [Reply.stops] at hr
            | ok t =>
                have ht : t.isEnd = false := by simpa [Reply.stops] using hr
                exact ⟨t :: ts, q, s'', .token hp ht hreads, Nat.succ_lt_succ hlength⟩

/-- Draining with enough pulls gives the whole reading, or the error that ended it. -/
theorem Reads.drainWithin {n : ℕ} {s s' : σ} {ts : List Token} {r : Reply ε} (h : Reads s ts r s')
    (hn : ts.length < n) : drainWithin n s = (r.map fun t => ts ++ [t], s') := by
  induction h generalizing n with
  | @stop s r s' hp hr =>
      obtain ⟨n, rfl⟩ := Nat.exists_eq_add_of_lt hn
      cases r with
      | error e => simp [TokenSource.drainWithin, hp, Except.map]
      | ok t =>
          have ht : t.isEnd = true := by simpa [Reply.stops] using hr
          simp [TokenSource.drainWithin, hp, ht, Except.map]
  | @token s t s' ts r s'' hp ht _ ih =>
      cases n with
      | zero => simp at hn
      | succ n =>
          have hrest := ih (n := n) (by simpa using hn)
          cases r <;> simp [TokenSource.drainWithin, hp, ht, hrest, Except.map]

end LayoutRule.TokenSource

namespace LayoutRule.BufferedStream

open TokenSource

universe u

variable {σ : Type u} {ε : Type} [Source σ ε]

/-- Fetching behind tokens that hold no end token is bounded draining. -/
theorem fetch_eq_drainWithin (n : ℕ) (b : BufferedStream σ) (h : b.complete = false) :
    ((b.fetch n).1.map fun _ => (b.fetch n).2.tokens) =
        (drainWithin n b.source).1.map (b.tokens ++ ·) ∧
      (b.fetch n).2.source = (drainWithin n b.source).2 := by
  induction n generalizing b with
  | zero => simp [fetch, drainWithin, Except.map]
  | succ n ih =>
      simp only [fetch, h, Bool.false_eq_true, ite_false]
      cases hp : pull b.source with
      | mk r s =>
          cases r with
          | error e => simp [drainWithin, hp, Except.map]
          | ok t =>
              let next : BufferedStream σ := { b with source := s, fetched := b.fetched.push t }
              have hcomplete : next.complete = t.isEnd := by simp [next, complete]
              by_cases ht : t.isEnd = true
              · have hfetch : next.fetch n = (.ok (), next) := by
                  cases n <;> simp [fetch, hcomplete, ht]
                simp [drainWithin, hp, ht, next, hfetch, tokens, Except.map]
              · have ht : t.isEnd = false := by simpa using ht
                obtain ⟨htokens, hsource⟩ := ih next (hcomplete.trans ht)
                refine ⟨?_, ?_⟩
                · cases hd : (drainWithin n s).1 <;>
                    simp_all [drainWithin, next, tokens, Except.map]
                · simpa [drainWithin, hp, ht] using hsource

end LayoutRule.BufferedStream

namespace LayoutRule

open TokenSource

universe u

variable {σ : Type u} {ε : Type} [Source σ ε]

theorem collect_eq_drainWithin (s : σ) : collect s = drainWithin (horizon s) s := by
  have h := BufferedStream.fetch_eq_drainWithin (horizon s) (BufferedStream.start s) rfl
  have hstart (r : Except (SourceError ε) (List Token)) :
      r.map ((BufferedStream.start s).tokens ++ ·) = r := by
    cases r <;> rfl
  exact Prod.ext (h.1.trans (hstart _)) h.2

/-- A buffer filled from a source that is read within its horizon holds the whole reading. -/
theorem collect_of_reads {s s' : σ} {ts : List Token} {r : Reply ε} (h : Reads s ts r s')
    (hn : ts.length < horizon s) : collect s = (r.map fun t => ts ++ [t], s') :=
  (collect_eq_drainWithin s).trans (h.drainWithin hn)

end LayoutRule
