import LayoutRule.Source.Basic
import LayoutRule.Tracker.Policy

/-! # The indentation tracker

The tracker takes raw tokens one at a time and puts block markers before the first token of a line: one
opening marker when the line lies right of the innermost open column, one closing marker for each open
column that it lies left of. The end of the input closes every open column. Markers wait in a queue, and
the token behind them waits with them. -/

namespace LayoutRule

/-- Whether the tracker still takes tokens, has handed out an end token, or has refused a line. -/
inductive TrackerStatus where
  | running
  | ended (final : Token)
  | failed (dedent : RaggedDedent)
  deriving DecidableEq, Repr

/-- The open columns stand innermost first, above a level at column 0 that is always open. -/
structure Tracker where
  config : TrackerConfig
  opened : List Nat
  pending : List Token
  atLineStart : Bool
  status : TrackerStatus
  deriving DecidableEq, Repr

/-- The markers that stand before a token, and the open columns behind it. -/
structure Effect where
  markers : List Token
  opened : List Nat
  deriving DecidableEq, Repr

namespace Tracker

/-- Nothing is open and a line begins. -/
def start (config : TrackerConfig) : Tracker :=
  ⟨config, [], [], true, .running⟩

/-- The open levels, outermost first. -/
def levels (t : Tracker) : List Nat :=
  0 :: t.opened.reverse

/-- The column of the innermost open level. -/
def top (t : Tracker) : Nat :=
  t.opened.headD 0

def isExhausted (t : Tracker) : Bool :=
  match t.status with
  | .ended _ => true
  | _ => false

/-- The deepest open level left of a column. -/
def nearest (t : Tracker) (column : Nat) : Nat :=
  (t.opened.find? (· < column)).getD 0

/-- What the first token of a line does to the open columns. -/
def measure (t : Tracker) (raw : Token) : Except RaggedDedent Effect :=
  if t.top < raw.column then .ok ⟨[raw.blockOpen], raw.column :: t.opened⟩
  else if t.config.dedent = .strict ∧ raw.column ∉ t.levels then
    .error ⟨raw.line, raw.column, t.nearest raw.column⟩
  else
    let closed := t.opened.takeWhile (raw.column < ·)
    .ok ⟨closed.map fun _ => raw.blockDedent, t.opened.dropWhile (raw.column < ·)⟩

/-- What a raw token does to the open columns: line breaks, and tokens within a line, do nothing. -/
def effect (t : Tracker) (raw : Token) : Except RaggedDedent Effect :=
  match raw.kind with
  | .endOfInput => .ok ⟨t.opened.map fun _ => raw.blockDedent, []⟩
  | .lineBreak => .ok ⟨[], t.opened⟩
  | _ => if t.atLineStart then t.measure raw else .ok ⟨[], t.opened⟩

/-- Whether a line begins behind a raw token. -/
def lineStartAfter (t : Tracker) (raw : Token) : Bool :=
  match raw.kind with
  | .lineBreak => true
  | .endOfInput => t.atLineStart
  | _ => false

variable {ε : Type}

/-- Hands out a token and keeps others waiting. -/
def handOut (t : Tracker) (first : Token) (later : List Token) : Reply ε × Tracker :=
  (.ok first, { t with pending := later, status := if first.isEnd then .ended first else t.status })

/-- Hands out the first of the markers and the token behind them. -/
def emit (t : Tracker) (raw : Token) : List Token → Reply ε × Tracker
  | [] => t.handOut raw []
  | m :: ms => t.handOut m (ms ++ [raw])

/-- Takes a raw token while none is waiting. -/
def accept (t : Tracker) (raw : Token) : Reply ε × Tracker :=
  let next := { t with atLineStart := t.lineStartAfter raw }
  match t.effect raw with
  | .error d => (.error (.raggedDedent d), { next with status := .failed d })
  | .ok e => { next with opened := e.opened }.emit raw e.markers

/-- What a pull answers without a raw token: an earlier refusal, a waiting token, or, behind the end token,
what the policy says. The answer is one for a source with errors of any type `ε`. -/
def ready? (ε : Type) (t : Tracker) : Option (Reply ε × Tracker) :=
  match t.status, t.pending with
  | .failed d, _ => some (.error (.raggedDedent d), t)
  | _, p :: ps => some (t.handOut p ps)
  | .ended final, [] =>
      match t.config.afterEnd with
      | .again => some (.ok final, t)
      | .fail => some (.error .useAfterEnd, t)
  | .running, [] => none

end Tracker

end LayoutRule
