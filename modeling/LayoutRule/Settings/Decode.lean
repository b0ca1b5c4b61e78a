import LayoutRule.Json.Basic
import LayoutRule.Number.Limits
import LayoutRule.Number.Shortest
import LayoutRule.Text.Lowercase
import LayoutRule.Text.Quoted
import LayoutRule.Tracker.Policy

/-! # Policies in settings

How the two policies are read from a store. The tracker is a table with a field for each, or a list with
the dedent policy first. A policy is a name in any case, or a table whose only field has that name. -/

namespace LayoutRule

namespace DedentPolicy

def name : DedentPolicy → String
  | lenient => "lenient"
  | strict => "strict"

def ofName? (s : String) : Option DedentPolicy :=
  [lenient, strict].find? fun p => p.name == s

end DedentPolicy

namespace ExhaustionPolicy

def name : ExhaustionPolicy → String
  | again => "repeat"
  | fail => "fail"

def ofName? (s : String) : Option ExhaustionPolicy :=
  [again, fail].find? fun p => p.name == s

end ExhaustionPolicy

namespace Settings

/-- The two policies, by the names that messages and fields use. -/
inductive Policy where
  | dedent
  | afterEnd
  deriving DecidableEq, Repr

namespace Policy

def typeName : Policy → String
  | dedent => "DedentPolicy"
  | afterEnd => "ExhaustionPolicy"

def fieldName : Policy → String
  | dedent => "dedent"
  | afterEnd => "after_end"

end Policy

inductive DecodeError where
  | notTracker (found : Json)
  | tooShort (length : Nat)
  | missingField (policy : Policy)
  | unknownName (policy : Policy) (name : String)
  | notPolicy (policy : Policy)
  deriving DecidableEq, Repr

/-- The double that stands for an integer beyond the signed 64-bit range. -/
def wideInteger? (n : Int) : Option Number.Finite64 :=
  if n < Number.signedLimit then none else Number.Finite64.ofQuotient? false n.toNat 1

/-- What a value is, in messages about settings. -/
def describe : Json → String
  | .null => "unit value"
  | .bool b => "boolean `" ++ toString b ++ "`"
  | .integer n =>
      match wideInteger? n with
      | some x => "floating point `" ++ x.text .positional ++ "`"
      | none => "integer `" ++ toString n ++ "`"
  | .real x => "floating point `" ++ x.text .positional ++ "`"
  | .string s => "string " ++ quoted s
  | .array _ => "sequence"
  | .object _ => "map"

def DecodeError.message : DecodeError → String
  | notTracker found => "invalid type: " ++ describe found ++ ", expected struct TrackerConfig"
  | tooShort length => "invalid length " ++ toString length ++ ", expected struct TrackerConfig with 2 elements"
  | missingField policy => "missing field `" ++ policy.fieldName ++ "`"
  | unknownName policy name => "enum " ++ policy.typeName ++ " does not have variant constructor " ++ name
  | notPolicy policy =>
      "value of enum " ++ policy.typeName ++
        " should be represented by either string or table with exactly one key"

/-- The name that a value gives for a policy. -/
def policyName (policy : Policy) : Json → Except DecodeError String
  | .string s => .ok s
  | .object [(name, _)] => .ok name
  | _ => .error (.notPolicy policy)

/-- Reads a policy by its name in any case. -/
def decodePolicy {α : Type} (policy : Policy) (ofName? : String → Option α) (j : Json) : Except DecodeError α := do
  let name ← policyName policy j
  match ofName? (lowercase name) with
  | some value => return value
  | none => throw (.unknownName policy name)

def decodeDedent (j : Json) : Except DecodeError DedentPolicy :=
  decodePolicy .dedent DedentPolicy.ofName? j

def decodeAfterEnd (j : Json) : Except DecodeError ExhaustionPolicy :=
  decodePolicy .afterEnd ExhaustionPolicy.ofName? j

/-- Reads the tracker of a store; a policy that is there is read before one that is missing is missed. -/
def decodeTracker : Json → Except DecodeError TrackerConfig
  | .object fields => do
      let dedent ← (fields.lookup Policy.dedent.fieldName).mapM decodeDedent
      let afterEnd ← (fields.lookup Policy.afterEnd.fieldName).mapM decodeAfterEnd
      match dedent, afterEnd with
      | some dedent, some afterEnd => return ⟨dedent, afterEnd⟩
      | none, _ => throw (.missingField .dedent)
      | _, none => throw (.missingField .afterEnd)
  | .array [] => .error (.tooShort 0)
  | .array [dedent] => do
      let _ ← decodeDedent dedent
      throw (.tooShort 1)
  | .array (dedent :: afterEnd :: _) => do
      return ⟨← decodeDedent dedent, ← decodeAfterEnd afterEnd⟩
  | j => .error (.notTracker j)

end Settings

end LayoutRule
