import LayoutRule.Json.Basic
import LayoutRule.Settings.Decode

/-! # Settings as one document

A JSON document of complete settings, read strictly: every field is there, lists have the exact length, and
names of policies are in lower case. -/

namespace LayoutRule.Settings

/-- The two structures in a document. -/
inductive Part where
  | settings
  | tracker
  deriving DecidableEq, Repr

inductive DocumentError where
  | notPart (part : Part) (found : Json)
  | tooShort (part : Part) (length : Nat)
  | tooLong (length : Nat)
  | missingTracker
  | missingField (policy : Policy)
  | unknownName (policy : Policy) (name : String)
  | notPolicy (found : Json)
  | notOneKey
  | notUnit (found : Json)
  deriving DecidableEq, Repr

/-- What a value is, in messages about a document. -/
def describeStrictly : Json → String
  | .null => "null"
  | .integer n => "integer `" ++ toString n ++ "`"
  | .real (.finite x) => "floating point `" ++ x.text .compact ++ "`"
  | j => describe j

namespace Part

def typeName : Part → String
  | settings => "struct OffsideConfig"
  | tracker => "struct TrackerConfig"

/-- The number of elements in a list for the part. -/
def size : Part → String
  | settings => "1 element"
  | tracker => "2 elements"

end Part

/-- The names a policy may have, as a message lists them. -/
def Policy.choices : Policy → String
  | dedent => "`lenient` or `strict`"
  | afterEnd => "`repeat` or `fail`"

def DocumentError.message : DocumentError → String
  | notPart part found => "invalid type: " ++ describeStrictly found ++ ", expected " ++ part.typeName
  | tooShort part length =>
      "invalid length " ++ toString length ++ ", expected " ++ part.typeName ++ " with " ++ part.size
  | tooLong length => "invalid length " ++ toString length ++ ", expected fewer elements in array"
  | missingTracker => "missing field `tracker`"
  | missingField policy => "missing field `" ++ policy.fieldName ++ "`"
  | unknownName policy name => "unknown variant `" ++ name ++ "`, expected " ++ policy.choices
  | notPolicy found => "invalid type: " ++ describeStrictly found ++ ", expected string or map"
  | notOneKey => "invalid value: map, expected map with a single key"
  | notUnit found => "invalid type: " ++ describeStrictly found ++ ", expected unit"

/-- Reads a policy: its name, or a map from its name to null. -/
def readPolicy {α : Type} (policy : Policy) (ofName? : String → Option α) (j : Json) : Except DocumentError α :=
  let named (name : String) : Except DocumentError α :=
    match ofName? name with
    | some value => .ok value
    | none => .error (.unknownName policy name)
  match j with
  | .string name => named name
  | .object [(name, value)] => do
      let policy ← named name
      match value with
      | .null => return policy
      | found => throw (.notUnit found)
  | .object _ => .error .notOneKey
  | found => .error (.notPolicy found)

def readDedent (j : Json) : Except DocumentError DedentPolicy :=
  readPolicy .dedent DedentPolicy.ofName? j

def readAfterEnd (j : Json) : Except DocumentError ExhaustionPolicy :=
  readPolicy .afterEnd ExhaustionPolicy.ofName? j

/-- Reads the tracker; fields are read in the order of their names, and missed in the order in which the
tracker lists them. -/
def readTracker : Json → Except DocumentError TrackerConfig
  | .object fields => do
      let afterEnd ← (fields.lookup Policy.afterEnd.fieldName).mapM readAfterEnd
      let dedent ← (fields.lookup Policy.dedent.fieldName).mapM readDedent
      match dedent, afterEnd with
      | some dedent, some afterEnd => return ⟨dedent, afterEnd⟩
      | none, _ => throw (.missingField .dedent)
      | _, none => throw (.missingField .afterEnd)
  | .array [] => .error (.tooShort .tracker 0)
  | .array [dedent] => do
      let _ ← readDedent dedent
      throw (.tooShort .tracker 1)
  | .array (dedent :: afterEnd :: rest) => do
      let config := ⟨← readDedent dedent, ← readAfterEnd afterEnd⟩
      if rest.isEmpty then return config else throw (.tooLong (rest.length + 2))
  | found => .error (.notPart .tracker found)

/-- Reads complete settings. -/
def readDocument : Json → Except DocumentError TrackerConfig
  | .object fields =>
      match fields.lookup "tracker" with
      | some tracker => readTracker tracker
      | none => .error .missingTracker
  | .array [] => .error (.tooShort .settings 0)
  | .array (tracker :: rest) => do
      let config ← readTracker tracker
      if rest.isEmpty then return config else throw (.tooLong (rest.length + 1))
  | found => .error (.notPart .settings found)

end LayoutRule.Settings
