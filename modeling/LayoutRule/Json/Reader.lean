import LayoutRule.Json.Piece

/-! # Reading JSON

The pieces of a text are taken one by one; a stack holds the containers that are open around the place
reached, innermost first. Among fields of one name the last wins. -/

namespace LayoutRule.Json

/-- A container that waits for the value of an item, or of the field under a name. -/
inductive Frame where
  | array (items : List Json)
  | object (fields : List (String × Json)) (key : String)
  deriving DecidableEq, Repr

/-- What may come next. Items are kept last first. -/
inductive Progress where
  | value (stack : List Frame)
  | firstItem (stack : List Frame)
  | afterItem (items : List Json) (stack : List Frame)
  | firstField (stack : List Frame)
  | field (fields : List (String × Json)) (stack : List Frame)
  | colon (fields : List (String × Json)) (key : String) (stack : List Frame)
  | afterField (fields : List (String × Json)) (stack : List Frame)
  | finished (value : Json)
  deriving DecidableEq, Repr

namespace Progress

/-- Hands a finished value to the container that waits for it. -/
def give (j : Json) : List Frame → Progress
  | [] => .finished j
  | .array items :: stack => .afterItem (j :: items) stack
  | .object fields key :: stack => .afterField (putField key j fields) stack

/-- A value begins: a scalar is complete, a bracket or brace opens a container below the limit. -/
def begin? (limit : Nat) (stack : List Frame) : Piece → Option Progress
  | .scalar j => some (give j stack)
  | .openArray => if stack.length < limit then some (.firstItem stack) else none
  | .openObject => if stack.length < limit then some (.firstField stack) else none
  | _ => none

/-- Takes the next piece. -/
def step? (limit : Nat) : Progress → Piece → Option Progress
  | .value stack, p => begin? limit stack p
  | .firstItem stack, .closeArray => some (give (.array []) stack)
  | .firstItem stack, p => begin? limit (.array [] :: stack) p
  | .afterItem items stack, .comma => some (.value (.array items :: stack))
  | .afterItem items stack, .closeArray => some (give (.array items.reverse) stack)
  | .firstField stack, .closeObject => some (give (.object []) stack)
  | .firstField stack, .scalar (.string key) => some (.colon [] key stack)
  | .field fields stack, .scalar (.string key) => some (.colon fields key stack)
  | .colon fields key stack, .colon => some (.value (.object fields key :: stack))
  | .afterField fields stack, .comma => some (.field fields stack)
  | .afterField fields stack, .closeObject => some (give (.object fields) stack)
  | _, _ => none

end Progress

/-- The most containers that may be open at once. -/
def depthLimit : Nat := 127

/-- The value that the pieces spell. -/
def ofPieces? (limit : Nat) (ps : List Piece) : Option Json :=
  match ps.foldlM (Progress.step? limit) (.value []) with
  | some (.finished j) => some j
  | _ => none

/-- Reads a text that holds one value with at most `limit` containers around any part of it. -/
def readWithin? (limit : Nat) (s : String) : Option Json := do
  ofPieces? limit (← pieces? s.toList)

def read? (s : String) : Option Json :=
  readWithin? depthLimit s

end LayoutRule.Json
