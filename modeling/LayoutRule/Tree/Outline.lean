import LayoutRule.Lexing
import LayoutRule.Tree.Node

/-! # Outlines

The outline of a tracked token list is the forest of its statements and blocks. Tokens are taken one by
one; around the place reached stand the nodes that are still open, innermost first. -/

namespace LayoutRule

/-- The first token that cannot stand where it does, or the place behind which tokens are missing. -/
inductive OutlineError where
  | unexpectedToken (token : Token)
  | unexpectedEnd (line column : Nat)
  deriving DecidableEq, Repr

namespace OutlineError

def line : OutlineError → Nat
  | unexpectedToken t => t.line
  | unexpectedEnd line _ => line

def column : OutlineError → Nat
  | unexpectedToken t => t.column
  | unexpectedEnd _ column => column

/-- What was found in place of a token that fits. -/
def found : OutlineError → String
  | unexpectedToken t => s!"unexpected {t.kind.label} {quoted t.text}"
  | unexpectedEnd _ _ => "unexpected end of token stream"

def message (e : OutlineError) : String :=
  s!"line {e.line}, column {e.column}: {e.found}"

end OutlineError

/-- A node whose block is being read: the nodes before it, last first, and the line above its block, which
is empty for a block that stands by itself. -/
structure OpenNode where
  before : List Node
  header : List Token
  deriving DecidableEq, Repr

/-- Where in a block the next token falls. Tokens of a statement are kept last first. -/
inductive Place where
  | leading
  | ready
  | inLine (tokens : List Token)
  | behindLine (tokens : List Token)
  | finished
  deriving DecidableEq, Repr

/-- The nodes of the innermost block so far, last first, and the open nodes around it. -/
structure Outline where
  place : Place
  siblings : List Node
  enclosing : List OpenNode
  deriving DecidableEq, Repr

namespace Outline

def start : Outline := ⟨.leading, [], []⟩

/-- The siblings together with the statement being read, which gets no block. -/
def settled (o : Outline) : List Node :=
  match o.place with
  | .inLine tokens | .behindLine tokens => .statement tokens.reverse [] :: o.siblings
  | _ => o.siblings

/-- The line that a block opening here belongs to. -/
def header (o : Outline) : List Token :=
  match o.place with
  | .inLine tokens | .behindLine tokens => tokens.reverse
  | _ => []

/-- A node without a header is a block by itself. -/
def nodeOf (header : List Token) (children : List Node) : Node :=
  match header with
  | [] => .block children
  | tokens => .statement tokens children

/-- A token of a statement goes on with its line or begins one. -/
def takeOrdinary (o : Outline) (t : Token) : Option Outline :=
  match o.place with
  | .inLine tokens => some { o with place := .inLine (t :: tokens) }
  | .finished => none
  | _ => some ⟨.inLine [t], o.settled, o.enclosing⟩

/-- A line break stands at the very start or behind a statement. -/
def takeLineBreak (o : Outline) : Option Outline :=
  match o.place with
  | .leading => some o
  | .inLine tokens | .behindLine tokens => some { o with place := .behindLine tokens }
  | .ready | .finished => none

/-- A block opens under the statement before it, or by itself. -/
def openBlock (o : Outline) : Option Outline :=
  match o.place with
  | .finished => none
  | _ => some ⟨.ready, [], ⟨o.siblings, o.header⟩ :: o.enclosing⟩

/-- The innermost block closes. -/
def closeBlock (o : Outline) : Option Outline :=
  match o.place, o.enclosing with
  | .finished, _ => none
  | _, [] => none
  | _, ⟨before, header⟩ :: outer => some ⟨.ready, nodeOf header o.settled.reverse :: before, outer⟩

/-- The end of the input stands outside every block. -/
def finish (o : Outline) : Option Outline :=
  match o.place, o.enclosing with
  | .finished, _ => none
  | _, [] => some ⟨.finished, o.settled, []⟩
  | _, _ :: _ => none

/-- Takes the next token, unless it cannot stand here. -/
def step? (o : Outline) (t : Token) : Option Outline :=
  match t.kind with
  | .lineBreak => o.takeLineBreak
  | .blockOpen => o.openBlock
  | .blockDedent => o.closeBlock
  | .endOfInput => o.finish
  | _ => o.takeOrdinary t

/-- Takes the tokens in order; `last` is the token taken before them. -/
def run (o : Outline) (last : Option Token) : List Token → Except OutlineError (List Node)
  | [] =>
      match o.place with
      | .finished => .ok o.siblings.reverse
      | _ => .error (last.elim (.unexpectedEnd 1 0) fun t => .unexpectedEnd t.line t.column)
  | t :: ts =>
      match o.step? t with
      | some next => next.run (some t) ts
      | none => .error (.unexpectedToken t)

end Outline

/-- The forest that a tracked token list spells, or the first token that cannot belong. -/
def outline (tokens : List Token) : Except OutlineError (List Node) :=
  Outline.start.run none tokens

end LayoutRule
