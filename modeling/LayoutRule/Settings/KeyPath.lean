import LayoutRule.Number.Limits

/-! # Key paths

A key path names a place among nested tables and lists: a name, and then steps by a name behind a point or
by a number in brackets. -/

namespace LayoutRule.Settings

/-- One step further in; a negative number counts from the end of a list. -/
inductive PathStep where
  | child (name : String)
  | index (place : Int)
  deriving DecidableEq, Repr

structure KeyPath where
  root : String
  steps : List PathStep
  deriving DecidableEq, Repr

inductive PathError where
  | noName
  | badStep
  | noNumber
  | numberTooLarge
  deriving DecidableEq, Repr

def PathError.message : PathError → String
  | noName => "IsA"
  | badStep => "Char"
  | noNumber => "Digit"
  | numberTooLarge => "Map on Result"

namespace KeyPath

/-- Spaces belong to a name. -/
def isNameChar (c : Char) : Bool :=
  c.isAlphanum || c = ' ' || c = '_' || c = '-'

def isBlank (c : Char) : Bool :=
  c = ' ' || c = '\t'

/-- Reads the number between brackets, from behind the opening one. -/
def readIndex (cs : List Char) : Except PathError (Int × List Char) :=
  let cs := cs.dropWhile isBlank
  let (negative, cs) := match cs with
    | '-' :: cs => (true, cs)
    | cs => (false, cs)
  match cs.takeWhile Char.isDigit with
  | [] => .error .noNumber
  | ds =>
      let size : Int := ds.foldl (fun n c => 10 * n + (c.toNat - '0'.toNat)) 0
      let n := if negative then -size else size
      if Number.isSigned n then
        match (cs.dropWhile Char.isDigit).dropWhile isBlank with
        | ']' :: rest => .ok (n, rest)
        | _ => .error .badStep
      else .error .numberTooLarge

/-- Reads at most `fuel` steps. -/
def readSteps : Nat → List Char → Except PathError (List PathStep)
  | _, [] => .ok []
  | 0, _ => .error .badStep
  | fuel + 1, '.' :: cs =>
      match cs.takeWhile isNameChar with
      | [] => .error .badStep
      | name => do return .child (String.ofList name) :: (← readSteps fuel (cs.dropWhile isNameChar))
  | fuel + 1, '[' :: cs => do
      let (n, rest) ← readIndex cs
      return .index n :: (← readSteps fuel rest)
  | _, _ => .error .badStep

def read (s : String) : Except PathError KeyPath :=
  let cs := s.toList
  match cs.takeWhile isNameChar with
  | [] => .error .noName
  | name => do return ⟨String.ofList name, ← readSteps cs.length (cs.dropWhile isNameChar)⟩

end KeyPath

end LayoutRule.Settings
