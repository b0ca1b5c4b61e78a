import LayoutRule.LexError
import LayoutRule.Token.Basic

/-! # Token sources

A source answers each pull with a token or an error and moves on. It ends with an end token, which it may
repeat; it may also go on after an error. -/

namespace LayoutRule

universe u

/-- What a pull answers: a token or an error. The errors of a text are the usual ones. -/
abbrev Reply (ε : Type := UnexpectedCharacter) := Except (SourceError ε) Token

namespace Reply

/-- An error or an end token, at which a reader of the whole source stops. -/
def stops {ε : Type} : Reply ε → Bool
  | .error _ => true
  | .ok t => t.isEnd

end Reply

/-- Something tokens are pulled from, with errors of its own of the type `ε`. Within the first `horizon` replies it
stops, or it has come to repeat one reply for ever. -/
class Source (σ : Type u) (ε : outParam Type) where
  pull : σ → Reply ε × σ
  horizon : σ → Nat

/-- A source with the errors of a text. -/
abbrev TokenSource (σ : Type u) := Source σ UnexpectedCharacter

namespace TokenSource

export Source (pull horizon)

variable {σ : Type u} {ε : Type} [Source σ ε]

/-- The replies of the next `n` pulls. -/
def replies : Nat → σ → List (Reply ε)
  | 0, _ => []
  | n + 1, s => (pull s).1 :: replies n (pull s).2

/-- The source after `n` pulls. -/
def after : Nat → σ → σ
  | 0, s => s
  | n + 1, s => after n (pull s).2

/-- Pulls up to the first end token or error, `n` times at most. -/
def drainWithin : Nat → σ → Except (SourceError ε) (List Token) × σ
  | 0, s => (.ok [], s)
  | n + 1, s =>
      match pull s with
      | (.error e, s) => (.error e, s)
      | (.ok t, s) =>
          if t.isEnd then (.ok [t], s) else
            let (rest, s) := drainWithin n s
            (rest.map (t :: ·), s)

/-- Every token up to the end token, or the first error. -/
def drain (s : σ) : Except (SourceError ε) (List Token) :=
  (drainWithin (horizon s) s).1

@[simp] theorem length_replies (n : Nat) (s : σ) : (replies n s).length = n := by
  induction n generalizing s with
  | zero => rfl
  | succ n ih => simp [replies, ih]

theorem after_add (m n : Nat) (s : σ) : after (m + n) s = after n (after m s) := by
  induction m generalizing s with
  | zero => simp [after]
  | succ m ih => rw [Nat.succ_add]; exact ih _

theorem replies_add (m n : Nat) (s : σ) : replies (m + n) s = replies m s ++ replies n (after m s) := by
  induction m generalizing s with
  | zero => simp [replies, after]
  | succ m ih => rw [Nat.succ_add]; simp only [replies, after, ih, List.cons_append]

end TokenSource

end LayoutRule
