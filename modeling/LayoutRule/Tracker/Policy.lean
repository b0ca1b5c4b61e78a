/-! # Policies of the tracker -/

namespace LayoutRule

/-- What becomes of a line whose column lies between two open columns: it is accepted in the outer of the
two, or refused. -/
inductive DedentPolicy where
  | lenient
  | strict
  deriving DecidableEq, Repr

/-- What a pull answers once the end token has been handed out: the same token again, or an error. -/
inductive ExhaustionPolicy where
  | again
  | fail
  deriving DecidableEq, Repr

structure TrackerConfig where
  dedent : DedentPolicy
  afterEnd : ExhaustionPolicy
  deriving DecidableEq, Repr

namespace TrackerConfig

/-- The policies that refuse nothing. -/
def lenient : TrackerConfig := ⟨.lenient, .again⟩

/-- The policies that refuse all they can. -/
def strict : TrackerConfig := ⟨.strict, .fail⟩

end TrackerConfig

end LayoutRule
