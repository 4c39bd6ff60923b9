import RuleBuild.Record
import RuleBuild.Yaml.Node

/-!
YAML documents as data. An alias stands for the node under its anchor, which it may lie within, so
aliases are followed only where their data are asked for. A scalar of any style is a text; plain
scalars also stand for truth values and for the absence of a value.
-/
namespace RuleBuild.Yaml

/-- The numbers that the names of anchors have. A name that is given again gets a new number, which
is the count of the names known by then. -/
abbrev AnchorNumbers := List (String × Nat)

namespace AnchorNumbers

/-- The numbers with one more for `name`. -/
def give (name : String) (known : AnchorNumbers) : AnchorNumbers :=
  (name, known.length) :: known.filter (·.1 ≠ name)

end AnchorNumbers

namespace Node

mutual

/-- A node with numbers in place of names. An alias has the number that its name has where it
stands; one of a name that is not known there is refused. -/
def number (known : AnchorNumbers) : Node String → Option (Node Nat × AnchorNumbers)
  | .scalar text style tag => some (.scalar text style tag, known)
  | .sequence items => do
    let (items, known) ← numberItems known items
    return (.sequence items, known)
  | .mapping entries => do
    let (entries, known) ← numberEntries known entries
    return (.mapping entries, known)
  | .named name n => do
    let (n, later) ← number (known.give name) n
    return (.named known.length n, later)
  | .alias name => do return (.alias (← known.lookup name), known)

/-- Nodes with numbers in place of names, one after the other. -/
def numberItems (known : AnchorNumbers) :
    List (Node String) → Option (List (Node Nat) × AnchorNumbers)
  | [] => some ([], known)
  | n :: ns => do
    let (n, known) ← number known n
    let (ns, known) ← numberItems known ns
    return (n :: ns, known)

/-- Keys and values with numbers in place of names, one after the other. -/
def numberEntries (known : AnchorNumbers) :
    List (Node String × Node String) → Option (List (Node Nat × Node Nat) × AnchorNumbers)
  | [] => some ([], known)
  | (k, v) :: es => do
    let (k, known) ← number known k
    let (v, known) ← number known v
    let (es, known) ← numberEntries known es
    return ((k, v) :: es, known)

end

mutual

/-- The nodes under the anchors of a node, in the order in which they begin, put before `more`. -/
def anchored (more : List (Nat × Node Nat)) : Node Nat → List (Nat × Node Nat)
  | .scalar .. => more
  | .sequence items => anchoredItems more items
  | .mapping entries => anchoredEntries more entries
  | .named i n => (i, n) :: anchored more n
  | .alias _ => more

/-- The nodes under the anchors of several nodes, put before `more`. -/
def anchoredItems (more : List (Nat × Node Nat)) : List (Node Nat) → List (Nat × Node Nat)
  | [] => more
  | n :: ns => anchored (anchoredItems more ns) n

/-- The nodes under the anchors of keys and values, put before `more`. -/
def anchoredEntries (more : List (Nat × Node Nat)) :
    List (Node Nat × Node Nat) → List (Nat × Node Nat)
  | [] => more
  | (k, v) :: es => anchored (anchored (anchoredEntries more es) v) k

end

end Node

/-- A part of a document, with the nodes that aliases stand for. -/
structure Part where
  anchors : List (Nat × Node Nat)
  place : Node Nat

namespace Part

/-- The node that a part is, without its anchor. Of two nodes with one number the later counts. -/
def node (p : Part) : Node Nat :=
  match p.place with
  | .named _ n => n
  | .alias i => (p.anchors.reverse.lookup i).getD .nothing
  | n => n

/-- Another part of the same document. -/
def other (p : Part) (n : Node Nat) : Part := ⟨p.anchors, n⟩

/-- The data of a text, which holds at most one document. A text without one is a document of
nothing. -/
def ofText? (s : String) : Option Part := do
  let root ←
    match ← Node.ofTokens? (← tokens? s) with
    | [] => some .nothing
    | [n] => some n
    | _ => none
  let (root, _) ← root.number []
  return ⟨root.anchored [], root⟩

/-- The text of a scalar. -/
def text? (p : Part) : Option String :=
  match p.node with
  | .scalar text _ _ => some text
  | _ => none

/-- The name of a tag of the format itself. -/
def standardTag (name : String) : Option String := some ("tag:yaml.org,2002:" ++ name)

/-- The truth value that a scalar spells. It is plain, or literal and tagged as one. -/
def truth? (p : Part) : Option Bool :=
  match p.node with
  | .scalar text style tag =>
    if style = .plain ∨ (style = .literal ∧ tag = standardTag "bool") then
      if text ∈ ["true", "True", "TRUE"] then some true
      else if text ∈ ["false", "False", "FALSE"] then some false
      else none
    else none
  | _ => none

/-- Whether a part stands for the absence of a value. A plain scalar does that is empty or spells
null, and has no tag but that of null. -/
def absent? (p : Part) : Option Bool :=
  match p.node with
  | .scalar text .plain tag =>
    let spelled := text ∈ ["~", "null", "Null", "NULL"]
    if tag = none then some (text = "" ∨ spelled)
    else if tag = standardTag "null" then (if spelled then some true else none)
    else some false
  | _ => some false

/-- The items of a sequence. Nothing is an empty one. -/
def items? (p : Part) : Option (List Part) :=
  match p.node with
  | .sequence items => some (items.map p.other)
  | .scalar "" .plain _ => some []
  | _ => none

/-- The members of a mapping, of which all keys are scalars. Nothing is an empty one. -/
def members? (p : Part) : Option (List (String × Part)) :=
  match p.node with
  | .mapping entries =>
    entries.mapM fun (k, v) => do return (← (p.other k).text?, p.other v)
  | .scalar "" .plain _ => some []
  | _ => none

end Part

instance : Datum Part where
  text? := Part.text?
  truth? := Part.truth?
  whole? _ := none
  absent? := Part.absent?
  items? := Part.items?
  body? p := p.members?.map .keyed

end RuleBuild.Yaml
