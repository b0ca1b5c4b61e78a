import LayoutRule.Token.Basic

/-! # Block trees -/

namespace LayoutRule

/-- A statement is one logical line with the block indented under it, which may be empty. A block without a
line above it stands by itself. -/
inductive Node where
  | statement (tokens : List Token) (body : List Node)
  | block (children : List Node)
  deriving Repr

namespace Node

mutual

/-- Equality of nodes is decided part by part. -/
def decEq : (m n : Node) → Decidable (m = n)
  | .statement ts ms, .statement us ns =>
      match (inferInstance : Decidable (ts = us)), listDecEq ms ns with
      | isTrue ht, isTrue hm => isTrue (by rw [ht, hm])
      | isFalse ht, _ => isFalse fun h => ht (by injection h)
      | _, isFalse hm => isFalse fun h => hm (by injection h)
  | .block ms, .block ns =>
      match listDecEq ms ns with
      | isTrue hm => isTrue (by rw [hm])
      | isFalse hm => isFalse fun h => hm (by injection h)
  | .statement _ _, .block _ => isFalse nofun
  | .block _, .statement _ _ => isFalse nofun

def listDecEq : (ms ns : List Node) → Decidable (ms = ns)
  | [], [] => isTrue rfl
  | m :: ms, n :: ns =>
      match decEq m n, listDecEq ms ns with
      | isTrue hm, isTrue hs => isTrue (by rw [hm, hs])
      | isFalse hm, _ => isFalse fun h => hm (by injection h)
      | _, isFalse hs => isFalse fun h => hs (by injection h)
  | [], _ :: _ => isFalse nofun
  | _ :: _, [] => isFalse nofun

end

instance : DecidableEq Node := decEq

def children : Node → List Node
  | .statement _ body => body
  | .block children => children

/-- The line of the first token, if there is one. -/
def line? : Node → Option Nat
  | .statement tokens _ => tokens.head?.map Token.line
  | .block [] => none
  | .block (n :: _) => n.line?

/-- The texts of a statement joined by single spaces, or the number of nodes in a block. -/
def label : Node → String
  | .statement tokens _ => " ".intercalate (tokens.map Token.text)
  | .block children => toString children.length ++ " nodes"

end Node

end LayoutRule
