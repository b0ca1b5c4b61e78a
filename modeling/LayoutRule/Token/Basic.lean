import LayoutRule.Token.Kind
import LayoutRule.Text.Quoted

/-! # Tokens

A token carries its kind, its text and where it stands. Lines count from 1, columns count characters
from 0, and a span counts bytes of the source from 0. -/

namespace LayoutRule

/-- A stretch of the source in bytes, from `start` up to but not including `stop`. -/
structure Span where
  start : Nat
  stop : Nat
  deriving DecidableEq, Repr

structure Token where
  kind : TokenKind
  text : String
  line : Nat
  column : Nat
  span : Span
  deriving DecidableEq, Repr

namespace Token

def blockOpenText : String := "<<INDENT>>"

def blockDedentText : String := "<<DEDENT>>"

def endOfInputText : String := "<EOF>"

/-- The end token at a place: its span is empty. -/
def endOfInput (line column offset : Nat) : Token :=
  ⟨.endOfInput, endOfInputText, line, column, ⟨offset, offset⟩⟩

/-- The marker of a block that `trigger` begins: column 0, on the line and span of its trigger. -/
def blockOpen (trigger : Token) : Token :=
  ⟨.blockOpen, blockOpenText, trigger.line, 0, trigger.span⟩

/-- The marker of a block that ends before `trigger`: column 0, on the line and span of its trigger. -/
def blockDedent (trigger : Token) : Token :=
  ⟨.blockDedent, blockDedentText, trigger.line, 0, trigger.span⟩

/-- Whether the token ends its source. -/
def isEnd (t : Token) : Bool :=
  t.kind = .endOfInput

/-- Kind, quoted text and place on one line. -/
def display (t : Token) : String :=
  s!"{t.kind.label}({quoted t.text})@{t.line}:{t.column}"

@[simp] theorem isEnd_endOfInput (l c o : Nat) : (endOfInput l c o).isEnd = true := rfl

@[simp] theorem isEnd_blockOpen (t : Token) : t.blockOpen.isEnd = false := rfl

@[simp] theorem isEnd_blockDedent (t : Token) : t.blockDedent.isEnd = false := rfl

theorem isEnd_iff (t : Token) : t.isEnd = true ↔ t.kind = .endOfInput := by
  simp [isEnd]

end Token

end LayoutRule
