import LayoutRule.Source.Basic

/-! # Prepared sources

A replay hands out a token list up to its first end token and then repeats that. A script hands out any
list of replies and then repeats the last. -/

namespace LayoutRule

/-- Replies still to come before `last`, which is repeated for ever. -/
structure Script (ε : Type := UnexpectedCharacter) where
  upcoming : List (Reply ε)
  last : Reply ε

namespace Script

variable {ε : Type}

/-- The script of a list of replies that is not empty. -/
def ofList (first : Reply ε) : List (Reply ε) → Script ε
  | [] => ⟨[], first⟩
  | r :: rs => let s := ofList r rs; ⟨first :: s.upcoming, s.last⟩

def pull (s : Script ε) : Reply ε × Script ε :=
  match s.upcoming with
  | [] => (s.last, s)
  | r :: rs => (r, ⟨rs, s.last⟩)

instance : Source (Script ε) ε where
  pull := pull
  horizon s := s.upcoming.length + 1

end Script

/-- Tokens still to come before the end token, which is repeated for ever. -/
structure Replay where
  upcoming : List Token
  final : Token

namespace Replay

/-- The end token behind a list that holds none: behind its last token, or at the very start. -/
def endAfter (tokens : List Token) : Token :=
  match tokens.getLast? with
  | some t => Token.endOfInput t.line (t.column + t.text.length) t.span.stop
  | none => Token.endOfInput 1 0 0

/-- Replays a list up to its first end token; a list without one is completed. -/
def ofTokens (tokens : List Token) : Replay :=
  ⟨tokens.takeWhile (!·.isEnd), (tokens.find? Token.isEnd).getD (endAfter tokens)⟩

def pull (s : Replay) : Reply × Replay :=
  match s.upcoming with
  | [] => (.ok s.final, s)
  | t :: ts => (.ok t, ⟨ts, s.final⟩)

instance : TokenSource Replay where
  pull := pull
  horizon s := s.upcoming.length + 1

end Replay

end LayoutRule
