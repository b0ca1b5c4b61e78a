import LayoutRule.Number.Binary64

/-! # JSON values

A number is an integer of at most 64 bits or a double. The fields of an object have distinct names and keep
the order in which the names first came. -/

namespace LayoutRule

inductive Json where
  | null
  | bool (value : Bool)
  | integer (value : Int)
  | real (value : Number.Binary64)
  | string (value : String)
  | array (items : List Json)
  | object (fields : List (String × Json))
  deriving Repr

namespace Json

mutual

/-- Equality of values is decided part by part. -/
def decEq : (i j : Json) → Decidable (i = j)
  | .null, .null => isTrue rfl
  | .bool a, .bool b => decidable_of_iff (a = b) (by simp)
  | .integer a, .integer b => decidable_of_iff (a = b) (by simp)
  | .real a, .real b => decidable_of_iff (a = b) (by simp)
  | .string a, .string b => decidable_of_iff (a = b) (by simp)
  | .array a, .array b => @decidable_of_iff _ (a = b) (by simp) (itemsDecEq a b)
  | .object a, .object b => @decidable_of_iff _ (a = b) (by simp) (fieldsDecEq a b)
  | .null, .bool _ | .null, .integer _ | .null, .real _ | .null, .string _ | .null, .array _
  | .null, .object _ => isFalse nofun
  | .bool _, .null | .bool _, .integer _ | .bool _, .real _ | .bool _, .string _ | .bool _, .array _
  | .bool _, .object _ => isFalse nofun
  | .integer _, .null | .integer _, .bool _ | .integer _, .real _ | .integer _, .string _
  | .integer _, .array _ | .integer _, .object _ => isFalse nofun
  | .real _, .null | .real _, .bool _ | .real _, .integer _ | .real _, .string _ | .real _, .array _
  | .real _, .object _ => isFalse nofun
  | .string _, .null | .string _, .bool _ | .string _, .integer _ | .string _, .real _
  | .string _, .array _ | .string _, .object _ => isFalse nofun
  | .array _, .null | .array _, .bool _ | .array _, .integer _ | .array _, .real _ | .array _, .string _
  | .array _, .object _ => isFalse nofun
  | .object _, .null | .object _, .bool _ | .object _, .integer _ | .object _, .real _
  | .object _, .string _ | .object _, .array _ => isFalse nofun

def itemsDecEq : (is js : List Json) → Decidable (is = js)
  | [], [] => isTrue rfl
  | i :: is, j :: js =>
      match decEq i j, itemsDecEq is js with
      | isTrue hi, isTrue hs => isTrue (by rw [hi, hs])
      | isFalse hi, _ => isFalse fun h => hi (by injection h)
      | _, isFalse hs => isFalse fun h => hs (by injection h)
  | [], _ :: _ => isFalse nofun
  | _ :: _, [] => isFalse nofun

def fieldsDecEq : (fs gs : List (String × Json)) → Decidable (fs = gs)
  | [], [] => isTrue rfl
  | (k, i) :: fs, (l, j) :: gs =>
      match (inferInstance : Decidable (k = l)), decEq i j, fieldsDecEq fs gs with
      | isTrue hk, isTrue hi, isTrue hs => isTrue (by rw [hk, hi, hs])
      | isFalse hk, _, _ => isFalse fun h => hk (by simp at h; exact h.1.1)
      | _, isFalse hi, _ => isFalse fun h => hi (by simp at h; exact h.1.2)
      | _, _, isFalse hs => isFalse fun h => hs (by simp at h; exact h.2)
  | [], _ :: _ => isFalse nofun
  | _ :: _, [] => isFalse nofun

end

instance : DecidableEq Json := decEq

/-- A natural number as a value. -/
def nat (n : Nat) : Json := .integer n

/-- Gives a name its value: in its old place if it has one, at the end otherwise. -/
def putField (key : String) (value : Json) : List (String × Json) → List (String × Json)
  | [] => [(key, value)]
  | (k, v) :: rest => if k = key then (k, value) :: rest else (k, v) :: putField key value rest

/-- The value under a name. -/
def field? (j : Json) (key : String) : Option Json :=
  match j with
  | .object fields => fields.lookup key
  | _ => none

/-- A name that is put among fields has its new value, and every other name its old one. -/
theorem lookup_putField (key other : String) (value : Json) (fields : List (String × Json)) :
    (putField key value fields).lookup other = if other = key then some value else fields.lookup other := by
  induction fields with
  | nil =>
      by_cases h : other = key
      · simp [putField, h]
      · simp [putField, h, List.lookup_cons, beq_false_of_ne h]
  | cons field rest ih =>
      obtain ⟨name, old⟩ := field
      rw [putField]
      by_cases hname : name = key
      · subst hname
        by_cases h : other = name
        · simp [h]
        · simp [h, List.lookup_cons, beq_false_of_ne h]
      · rw [if_neg hname]
        by_cases h : other = name
        · simp [h, hname]
        · simp [List.lookup_cons, beq_false_of_ne h, ih]

end Json

end LayoutRule
