import LayoutRule.Source.Basic

/-! # Iteration

An iteration over a source gives every token up to the end token, or up to the first error, and then
nothing more. -/

namespace LayoutRule

universe u

structure TokenIteration (σ : Type u) where
  source : σ
  finished : Bool

namespace TokenIteration

variable {σ : Type u} {ε : Type} [Source σ ε]

def start (source : σ) : TokenIteration σ := ⟨source, false⟩

/-- The next reply, unless the iteration has finished. -/
def next? (it : TokenIteration σ) : Option (Reply ε) × TokenIteration σ :=
  if it.finished then (none, it) else
    let (reply, source) := TokenSource.pull it.source
    (some reply, ⟨source, reply.stops⟩)

/-- The outcomes of the next `n` steps, and the iteration behind them. -/
def run : Nat → TokenIteration σ → List (Option (Reply ε)) × TokenIteration σ
  | 0, it => ([], it)
  | n + 1, it =>
      let (r, it) := it.next?
      let (rs, it) := run n it
      (r :: rs, it)

/-- The tokens of at most `n` steps up to the end of the iteration, or its error. -/
def collectWithin : Nat → TokenIteration σ → Except (SourceError ε) (List Token) × TokenIteration σ
  | 0, it => (.ok [], it)
  | n + 1, it =>
      match it.next? with
      | (none, it) => (.ok [], it)
      | (some (.error e), it) => (.error e, it)
      | (some (.ok t), it) =>
          let (rest, it) := collectWithin n it
          (rest.map (t :: ·), it)

/-- Every token of the iteration, or its error. Behind the last token one step more finds the end. -/
def collect (it : TokenIteration σ) : Except (SourceError ε) (List Token) × TokenIteration σ :=
  it.collectWithin (TokenSource.horizon it.source + 1)

/-- Iterations over one source, one after another, each of the given number of steps: the outcomes of each, and
the source behind the last. -/
def relay : List Nat → σ → List (List (Option (Reply ε))) × σ
  | [], s => ([], s)
  | n :: ns, s =>
      let (outcomes, it) := (start s).run n
      let (later, s) := relay ns it.source
      (outcomes :: later, s)

theorem run_succ (n : Nat) (it : TokenIteration σ) :
    it.run (n + 1) = (it.next?.1 :: (it.next?.2.run n).1, (it.next?.2.run n).2) := rfl

theorem relay_cons (n : Nat) (ns : List Nat) (s : σ) :
    relay (n :: ns) s =
      (((start s).run n).1 :: (relay ns ((start s).run n).2.source).1, (relay ns ((start s).run n).2.source).2) :=
  rfl

end TokenIteration

end LayoutRule
