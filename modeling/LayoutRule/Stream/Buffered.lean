import LayoutRule.Number.Limits
import LayoutRule.Source.Basic

/-! # Buffered streams

A buffer keeps the tokens fetched from its source and a cursor among them. Tokens are fetched only as far
as they are asked for, and never past the end token. An error leaves the cursor and the tokens fetched
before it as they are. A place ahead is counted in machine words. -/

namespace LayoutRule

universe u

structure BufferedStream (σ : Type u) where
  source : σ
  fetched : Array Token
  index : Nat

namespace BufferedStream

variable {σ : Type u}

def start (source : σ) : BufferedStream σ := ⟨source, #[], 0⟩

/-- Whether the end token has been fetched. -/
def complete (b : BufferedStream σ) : Bool :=
  b.fetched.back?.any Token.isEnd

/-- The tokens fetched so far. -/
def tokens (b : BufferedStream σ) : List Token := b.fetched.toList

variable [Source σ ε]

/-- Fetches up to `n` tokens more, stopping behind the end token. -/
def fetch : Nat → BufferedStream σ → Except (SourceError ε) Unit × BufferedStream σ
  | 0, b => (.ok (), b)
  | n + 1, b =>
      if b.complete then (.ok (), b) else
        match TokenSource.pull b.source with
        | (.error e, source) => (.error e, { b with source })
        | (.ok t, source) => fetch n { b with source, fetched := b.fetched.push t }

/-- Fetches until position `i` is in the buffer, if the source goes that far. -/
def sync (b : BufferedStream σ) (i : Nat) : Except (SourceError ε) Unit × BufferedStream σ :=
  b.fetch (i + 1 - b.fetched.size)

/-- Fetching brings all the tokens that it may, or the end token. -/
theorem le_size_of_fetch {n : Nat} {b b' : BufferedStream σ} (h : b.fetch n = (.ok (), b')) :
    b.fetched.size + n ≤ b'.fetched.size ∨ b'.complete = true := by
  induction n generalizing b with
  | zero =>
      obtain rfl : b = b' := congrArg Prod.snd h
      exact .inl (Nat.le_refl _)
  | succ n ih =>
      rw [fetch] at h
      split at h
      · next hcomplete =>
          obtain rfl : b = b' := congrArg Prod.snd h
          exact .inr hcomplete
      · split at h
        · cases congrArg Prod.fst h
        · have hsize := ih h
          rw [Array.size_push, Nat.add_assoc, Nat.add_comm 1] at hsize
          exact hsize

/-- Once a position has been made sure of, the buffer has a last token. -/
theorem size_pos_of_sync {i : Nat} {b b' : BufferedStream σ} (h : b.sync i = (.ok (), b')) :
    0 < b'.fetched.size := by
  rcases le_size_of_fetch h with hsize | hcomplete
  · omega
  · refine Nat.pos_of_ne_zero fun hzero => ?_
    simp [complete, Array.size_eq_zero_iff.mp hzero] at hcomplete

/-- Fetches everything that is left. -/
def fill (b : BufferedStream σ) : Except (SourceError ε) Unit × BufferedStream σ :=
  b.fetch (TokenSource.horizon b.source)

/-- The token at a position, or the end token if the source ends before it. -/
def lookAt (b : BufferedStream σ) (i : Nat) : Reply ε × BufferedStream σ :=
  match h : b.sync i with
  | (.error e, b') => (.error e, b')
  | (.ok (), b') =>
      have hsize := size_pos_of_sync h
      (.ok b'.fetched[min i (b'.fetched.size - 1)], b')

/-- The position `k` places ahead, counting the current token as 1. It is computed in words of 64 bits, where a sum
that leaves them wraps; a build that checks its sums stops there instead. -/
def placeAhead (b : BufferedStream σ) (k : Nat) : Nat :=
  (UInt64.ofNat b.index + UInt64.ofNat (max k 1) - 1).toNat

omit [Source σ ε] in
theorem placeAhead_eq (b : BufferedStream σ) (k : Nat) :
    b.placeAhead k = (b.index + max k 1 - 1) % Number.wordLimit := by
  have hk : 1 ≤ b.index + max k 1 := Nat.le_trans (Nat.le_max_right k 1) (Nat.le_add_left _ _)
  rw [placeAhead, ← UInt64.ofNat_add, show (1 : UInt64) = UInt64.ofNat 1 from rfl, ← UInt64.ofNat_sub hk,
    UInt64.toNat_ofNat']
  rfl

/-- The token `k` places ahead; past the end it is the end token, as long as the place is counted without
wrapping. -/
def lookahead (b : BufferedStream σ) (k : Nat) : Reply ε × BufferedStream σ :=
  b.lookAt (b.placeAhead k)

/-- Moves past the current token, but never past the end token. -/
def consume (b : BufferedStream σ) : Except (SourceError ε) Unit × BufferedStream σ :=
  match b.lookAt b.index with
  | (.error e, b) => (.error e, b)
  | (.ok t, b) => (.ok (), if t.isEnd then b else { b with index := b.index + 1 })

/-- The current token is the one that is looked ahead to by 1. -/
theorem lookahead_one {b : BufferedStream σ} (h : b.index < Number.wordLimit) :
    b.lookahead 1 = b.lookAt b.index := by
  rw [lookahead, placeAhead_eq, Nat.max_self, Nat.add_sub_cancel, Nat.mod_eq_of_lt h]

/-- Moves to a position, or to the end token if the source ends before it. -/
def seek (b : BufferedStream σ) (i : Nat) : Except (SourceError ε) Unit × BufferedStream σ :=
  match b.sync i with
  | (.error e, b) => (.error e, b)
  | (.ok (), b) => (.ok (), { b with index := min i (b.fetched.size - 1) })

end BufferedStream

end LayoutRule
