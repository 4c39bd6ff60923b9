import RuleBuild.Decimal.Shortest

/-!
JSON values, and the tree that a JSON text spells out before anyone has asked for its values. The
tree keeps repeated keys, and marks as unreadable what is well-formed but stands for no value; a
reader that passes over such a place never notices it.
-/
namespace RuleBuild

/-- A number without fraction and exponent that fits 64 bits is whole, any other is a double. -/
inductive Number
  | whole (i : Int)
  | double (x : Binary64)
  deriving Repr, DecidableEq

/-- A JSON value. Members keep the order in which they were received. -/
inductive Json
  | null
  | bool (b : Bool)
  | number (n : Number)
  | string (s : String)
  | array (items : List Json)
  | object (members : List (String × Json))
  deriving Repr, Inhabited, BEq

namespace Json

/-- The tree of a JSON text. A key is missing where its text is no string of characters. -/
inductive Raw
  | null
  | bool (b : Bool)
  | number (n : Number)
  | string (s : String)
  | array (items : List Raw)
  | object (members : List (Option String × Raw))
  | unreadable
  deriving Repr, Inhabited

/-- `members` with `key` bound to `value`: a known key keeps its place, a new one comes last. -/
def put {α : Type} (key : String) (value : α) : List (String × α) → List (String × α)
  | [] => [(key, value)]
  | m :: ms => if m.1 = key then (key, value) :: ms else m :: put key value ms

/-- Members in the order received, a repeated key at its first place and with its last value. -/
def collect {α : Type} (members : List (String × α)) : List (String × α) :=
  members.foldl (fun ms m => put m.1 m.2 ms) []

mutual

/-- The value of a tree, none when any part of it is unreadable. -/
def Raw.value? : Raw → Option Json
  | .null => some .null
  | .bool b => some (.bool b)
  | .number n => some (.number n)
  | .string s => some (.string s)
  | .array items => (Raw.values? items).map .array
  | .object members => (Raw.memberValues? members).map fun ms => .object (collect ms)
  | .unreadable => none

/-- The values of all items. -/
def Raw.values? : List Raw → Option (List Json)
  | [] => some []
  | x :: xs => do
    let v ← Raw.value? x
    let vs ← Raw.values? xs
    return v :: vs

/-- The values of all members, repeated keys included. -/
def Raw.memberValues? : List (Option String × Raw) → Option (List (String × Json))
  | [] => some []
  | (key, x) :: ms => do
    let k ← key
    let v ← Raw.value? x
    let vs ← Raw.memberValues? ms
    return (k, v) :: vs

end

/-- The value under `key`. -/
def get? (key : String) : Json → Option Json
  | .object members => members.lookup key
  | _ => none

/-- The characters of a string value. -/
def string? : Json → Option String
  | .string s => some s
  | _ => none

/-- A whole number. -/
def ofNat (n : Nat) : Json := .number (.whole n)

end Json
end RuleBuild
