import RuleBuild.Json.Basic

/-!
Records read from data of any notation. A record is written as its named members or as the list of
its fields in order; fields at the end of the list may be left out, and members that no field is
named after are passed over. A field that is named twice is refused.
-/
namespace RuleBuild

/-- What a record is written as. Of a list that is `leading`, items beyond the fields do not
count. -/
inductive Body (α : Type)
  | listed (items : List α)
  | leading (items : List α)
  | keyed (members : List (String × α))

/-- Data of one notation, asked for values of the given kinds. -/
class Datum (α : Type) where
  /-- A string. -/
  text? : α → Option String
  /-- A truth value. -/
  truth? : α → Option Bool
  /-- A whole number. -/
  whole? : α → Option Int
  /-- Whether the datum stands for the absence of a value; none where it says so and holds one. -/
  absent? : α → Option Bool
  /-- The items of a list. -/
  items? : α → Option (List α)
  /-- The parts of a record. -/
  body? : α → Option (Body α)

namespace Body

variable {α : Type}

/-- The members named `key`. -/
def named (key : String) (members : List (String × α)) : List α :=
  (members.filter (·.1 = key)).map (·.2)

/-- The member named `key`, if there is one; refused if there are more. -/
def member? (key : String) (members : List (String × α)) : Option (Option α) :=
  match named key members with
  | [] => some none
  | [x] => some (some x)
  | _ => none

/-- The data of the fields of these names. A list may not be longer than the names. -/
def fields? (names : List String) : Body α → Option (List (Option α))
  | .listed items =>
    if items.length ≤ names.length then
      some (items.map some ++ List.replicate (names.length - items.length) none)
    else none
  | .leading items =>
    some ((items.take names.length).map some ++ List.replicate (names.length - items.length) none)
  | .keyed members => names.mapM (member? · members)

/-- Whether a record written as a list holds at least `n` fields. -/
def reaches (n : Nat) : Body α → Bool
  | .listed items => n ≤ items.length
  | .leading items => n ≤ items.length
  | .keyed _ => true

/-- The tag of a record and the rest of it: the member named `key`, or the first of the list. -/
def tagged? [Datum α] (key : String) : Body α → Option (String × Body α)
  | .listed [] => none
  | .listed (x :: items) => (Datum.text? x).map (·, .listed items)
  | .leading [] => none
  | .leading (x :: items) => (Datum.text? x).map (·, .leading items)
  | .keyed members => do
    let tag ← (← member? key members)
    return (← Datum.text? tag, .keyed (members.filter (·.1 ≠ key)))

end Body

namespace Datum

variable {α β : Type}

/-- A field that has to be there. -/
def required (read : α → Option β) (field : Option α) : Option β := field.bind read

/-- A field that has a value of its own where it is left out. -/
def defaulted (read : α → Option β) (value : β) : Option α → Option β
  | none => some value
  | some x => read x

/-- A field that may be left out or null. -/
def optional [Datum α] (read : α → Option β) : Option α → Option (Option β)
  | none => some none
  | some x => do if ← absent? x then return none else return some (← read x)

/-- A list of which every item can be read. -/
def list? [Datum α] (read : α → Option β) (x : α) : Option (List β) := do
  (← items? x).mapM read

/-- One of several names: alone, or as the only member of a record, with the value null. -/
def choice? [Datum α] (x : α) : Option String :=
  match text? x, body? x with
  | some name, _ => some name
  | none, some (.keyed [(name, y)]) => if absent? y = some true then some name else none
  | _, _ => none

end Datum

instance : Datum Json where
  text? := Json.string?
  truth?
    | .bool b => some b
    | _ => none
  whole?
    | .number (.whole i) => some i
    | _ => none
  absent?
    | .null => some true
    | _ => some false
  items?
    | .array items => some items
    | _ => none
  body?
    | .array items => some (.listed items)
    | .object members => some (.keyed members)
    | _ => none

instance : Datum Json.Raw where
  text?
    | .string s => some s
    | _ => none
  truth?
    | .bool b => some b
    | _ => none
  whole?
    | .number (.whole i) => some i
    | _ => none
  absent?
    | .null => some true
    | _ => some false
  items?
    | .array items => some items
    | _ => none
  body?
    | .array items => some (.listed items)
    | .object members =>
      (members.mapM fun (m : Option String × Json.Raw) => m.1.map (·, m.2)).map .keyed
    | _ => none

/-- Data that stands for a JSON value, or for none where a part of it is unreadable. -/
class JsonDatum (α : Type) extends Datum α where
  /-- The whole datum as a value. -/
  value? : α → Option Json

instance : JsonDatum Json where
  value? := some

instance : JsonDatum Json.Raw where
  value? := Json.Raw.value?

end RuleBuild
