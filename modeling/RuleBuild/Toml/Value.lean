import RuleBuild.Toml.Moment
import RuleBuild.Toml.Number
import RuleBuild.Toml.Text

/-!
Values and keys of TOML texts. Within a table between braces, as in the text as a whole, a key may
be a path; what the paths add up to is settled elsewhere, so values are read with a way to do
that.
-/
namespace RuleBuild.Toml

/-- A value. -/
inductive Value
  | text (s : String)
  | truth (b : Bool)
  | whole (i : Int)
  | floating (x : Floating)
  | moment (m : Moment)
  | array (items : List Value)
  | table (members : List (String × Value))
  deriving Repr

/-- A key, as the keys of the tables on the way and the last one. -/
structure KeyPath where
  outer : List String
  last : String
  deriving Repr, DecidableEq

/-- How deep arrays and tables may lie within each other, and keys on the way to the last one. -/
def depthLimit : Nat := 80

/-- The characters of a key without quotes. -/
def isKeyChar (c : Char) : Bool := c.isAlphanum || c = '_' || c = '-'

/-- One key of a path. -/
def readKey : Reader String
  | [] => none
  | c :: cs =>
    if c = '"' || c = '\'' then
      let q : Quote := if c = '"' then .double else .single
      if cs.take 2 = [c, c] then none else readLineText q (cs.length + 1) [] cs
    else
      let word := (c :: cs).takeWhile isKeyChar
      if word.isEmpty then none else some (String.ofList word, (c :: cs).drop word.length)

/-- The keys of a path after `outer`, which is kept backwards. -/
def readKeys : Nat → List String → Reader KeyPath
  | 0, _, _ => none
  | fuel + 1, outer, cs => do
    let (k, cs) ← readKey (skipBlanks cs)
    match skipBlanks cs with
    | '.' :: cs => readKeys fuel (k :: outer) cs
    | cs => return (⟨outer.reverse, k⟩, cs)

/-- A path and the text after it and blanks. -/
def readKeyPath : Reader KeyPath := readKeys depthLimit []

/-- The characters of values without quotes or brackets. -/
def isWordChar (c : Char) : Bool := c.isAlphanum || "_-+.:".toList.contains c

/-- The word that a text begins with. A date goes together with a time after a space. -/
def word (cs : List Char) : List Char :=
  let first := cs.takeWhile isWordChar
  match cs.drop first.length with
  | ' ' :: d :: rest =>
    if d.isDigit && (readDate first).any (·.2.isEmpty) then
      first ++ ' ' :: (d :: rest).takeWhile isWordChar
    else first
  | _ => first

/-- The value that a word spells. -/
def ofWord? (cs : List Char) : Option Value :=
  if cs = "true".toList then some (.truth true)
  else if cs = "false".toList then some (.truth false)
  else
    match whole? cs with
    | some i => if isWide i then some (.whole i) else none
    | none =>
      match Moment.ofChars? cs with
      | some m => some (.moment m)
      | none => (floating? cs).map .floating

/-- A value without brackets. -/
def readSimple : Reader Value
  | '"' :: cs => do
    let (s, cs) ← readText .double cs
    return (.text s, cs)
  | '\'' :: cs => do
    let (s, cs) ← readText .single cs
    return (.text s, cs)
  | cs =>
    let w := word cs
    (ofWord? w).map (·, cs.drop w.length)

/-- What stands between an opening bracket and the closing one `close`: parts with commas between
them and perhaps after the last. What has been read is kept backwards. -/
def readParts {α : Type} (close : Char) (part : Reader α) : Nat → List α → Reader (List α)
  | 0, _, _ => none
  | fuel + 1, done, cs =>
    match skipGap cs with
    | [] => none
    | c :: cs =>
      if c = close then some (done.reverse, cs)
      else do
        let (x, cs) ← part (c :: cs)
        match skipGap cs with
        | ',' :: cs => readParts close part fuel (x :: done) cs
        | c :: cs => if c = close then some ((x :: done).reverse, cs) else none
        | [] => none

/-- A key path, the equals sign, and a value; `skip` passes over what may stand between them. -/
def readAssignment (skip : List Char → List Char) (value : Reader Value) :
    Reader (KeyPath × Value) := fun cs => do
  let (path, cs) ← readKeyPath cs
  let (v, cs) ← value (skip (← afterMark? ['='] (skip cs)))
  return ((path, v), cs)

/-- A value; `collect` makes a table of assignments. -/
def readValue (collect : List (KeyPath × Value) → Option Value) : Nat → Reader Value
  | depth, '[' :: cs =>
    match depth with
    | 0 => none
    | depth + 1 => do
      let (items, cs) ← readParts ']' (readValue collect depth) (cs.length + 1) [] cs
      return (.array items, cs)
  | depth, '\x7b' :: cs =>
    match depth with
    | 0 => none
    | depth + 1 => do
      let assignment := readAssignment skipGap (readValue collect depth)
      let (members, cs) ← readParts '\x7d' assignment (cs.length + 1) [] cs
      return (← collect members, cs)
  | _, cs => readSimple cs

end RuleBuild.Toml
