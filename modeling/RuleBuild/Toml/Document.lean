import RuleBuild.Record
import RuleBuild.Toml.Value

/-!
Whole TOML texts. A text is a sequence of headers, which name the table that what follows belongs
to, and of assignments. A table is defined once: by its header, by dotted keys, or between braces;
only one that has been implied by a longer path may be defined later.
-/
namespace RuleBuild.Toml

/-- How a table came about. -/
inductive Origin
  | defined
  | implied
  | dotted
  deriving Repr, DecidableEq

/-- A table that may still grow, one after the other in a list of such, or a value that is
complete. -/
inductive Item
  | fixed (value : Value)
  | table (origin : Origin) (members : List (String × Item))
  | tables (last : List (String × Item)) (earlier : List (List (String × Item)))

/-- The members of a table that may still grow. -/
abbrev Members := List (String × Item)

namespace Members

/-- The members with `item` in place of the one named `key`, or after all if there is none. -/
def set (ms : Members) (key : String) (item : Item) : Members :=
  match ms with
  | [] => [(key, item)]
  | m :: ms => if m.1 = key then (key, item) :: ms else m :: set ms key item

/-- The members after the table at a path has been changed by `change`, which is told how that
table came about. Tables that are missing on the way come about as `origin`. A dotted path goes
through no table with a header of its own; in a list of tables, a path goes through the last. -/
def alter (origin : Origin) (change : Origin → Members → Option Members) :
    List String → Origin → Members → Option Members
  | [], found, ms => change found ms
  | k :: path, _, ms => do
    match ms.lookup k with
    | none => return ms ++ [(k, .table origin (← alter origin change path origin []))]
    | some (.table found inner) =>
      if origin = .dotted ∧ found = .defined then none
      else return ms.set k (.table found (← alter origin change path found inner))
    | some (.tables last earlier) =>
      return ms.set k (.tables (← alter origin change path .defined last) earlier)
    | some (.fixed _) => none

/-- The members with one more; its key must be new. -/
def add (ms : Members) (key : String) (item : Item) : Option Members :=
  if (ms.lookup key).isSome then none else some (ms ++ [(key, item)])

/-- The members after an assignment. A key after dots belongs to a table made by dotted keys, and
any other key to one that is not. -/
def assign (ms : Members) (path : KeyPath) (value : Value) : Option Members :=
  let change (found : Origin) (ms : Members) : Option Members :=
    if found = .dotted ↔ path.outer ≠ [] then ms.add path.last (.fixed value) else none
  alter .dotted change path.outer .defined ms

/-- The members after the header of a table. -/
def openTable (ms : Members) (path : KeyPath) : Option Members :=
  let change (_ : Origin) (ms : Members) : Option Members :=
    match ms.lookup path.last with
    | none => some (ms.set path.last (.table .defined []))
    | some (.table .implied inner) => some (ms.set path.last (.table .defined inner))
    | some _ => none
  alter .implied change path.outer .defined ms

/-- The members after the header of one more table of a list. -/
def openNext (ms : Members) (path : KeyPath) : Option Members :=
  let change (_ : Origin) (ms : Members) : Option Members :=
    match ms.lookup path.last with
    | none => some (ms.set path.last (.tables [] []))
    | some (.tables last earlier) => some (ms.set path.last (.tables [] (last :: earlier)))
    | some _ => none
  alter .implied change path.outer .defined ms

mutual

/-- The value that an item has become. -/
def itemValue : Item → Value
  | .fixed v => v
  | .table _ members => .table (memberValues members)
  | .tables last earlier =>
    .array ((tableValues earlier).reverse ++ [.table (memberValues last)])

/-- The values that items have become. -/
def memberValues : List (String × Item) → List (String × Value)
  | [] => []
  | (k, i) :: ms => (k, itemValue i) :: memberValues ms

/-- The tables that lists of items have become. -/
def tableValues : List (List (String × Item)) → List Value
  | [] => []
  | ms :: rest => .table (memberValues ms) :: tableValues rest

end

/-- The table that assignments add up to. -/
def collect (assignments : List (KeyPath × Value)) : Option Value := do
  let ms ← assignments.foldlM (fun (ms : Members) (path, v) => ms.assign path v) []
  return .table (memberValues ms)

end Members

/-- A line of a text that means something. -/
inductive Statement
  | table (path : KeyPath)
  | nextTable (path : KeyPath)
  | assignment (path : KeyPath) (value : Value)

/-- A header or an assignment. -/
def readStatement : Reader Statement
  | '[' :: '[' :: cs => do
    let (path, cs) ← readKeyPath cs
    return (.nextTable path, ← afterMark? [']'] (← afterMark? [']'] cs))
  | '[' :: cs => do
    let (path, cs) ← readKeyPath cs
    return (.table path, ← afterMark? [']'] cs)
  | cs => do
    let ((path, v), cs) ← readAssignment skipBlanks (readValue Members.collect depthLimit) cs
    return (.assignment path v, cs)

/-- The statements of a text, each on lines of its own. -/
def readStatements : Nat → List Statement → List Char → Option (List Statement)
  | 0, _, _ => none
  | fuel + 1, done, cs =>
    match skipGap cs with
    | [] => some done.reverse
    | '#' :: cs => if endLine? ('#' :: cs) = some [] then some done.reverse else none
    | cs => do
      let (s, cs) ← readStatement cs
      readStatements fuel (s :: done) (← endLine? cs)

/-- A text being read: its members, and the path of the table that assignments belong to. -/
structure Draft where
  members : Members
  here : List String

namespace Draft

/-- A text of which nothing has been read. -/
def empty : Draft := ⟨[], []⟩

/-- The draft after one more statement. -/
def obey (d : Draft) : Statement → Option Draft
  | .table path => do return ⟨← d.members.openTable path, path.outer ++ [path.last]⟩
  | .nextTable path => do return ⟨← d.members.openNext path, path.outer ++ [path.last]⟩
  | .assignment path value => do
    let change (_ : Origin) (ms : Members) : Option Members := ms.assign path value
    return ⟨← Members.alter .implied change d.here .defined d.members, d.here⟩

end Draft

namespace Value

/-- The table that a text spells. A byte order mark may come first. -/
def ofText? (s : String) : Option Value := do
  let cs := s.toList
  let cs := if cs.head? = some '\uFEFF' then cs.tail else cs
  let statements ← readStatements (cs.length + 1) [] cs
  let draft ← statements.foldlM Draft.obey .empty
  return .table (Members.memberValues draft.members)

end Value

/-- A table is a record, and an array one of which the first items count. A moment is a record too,
of no field with a name. -/
instance : Datum Value where
  text?
    | .text s => some s
    | _ => none
  truth?
    | .truth b => some b
    | _ => none
  whole?
    | .whole i => some i
    | _ => none
  absent? _ := some false
  items?
    | .array items => some items
    | _ => none
  body?
    | .table members => some (.keyed members)
    | .array items => some (.leading items)
    | .moment _ => some (.keyed [])
    | _ => none

end RuleBuild.Toml
