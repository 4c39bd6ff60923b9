import RuleBuild.Yaml.Token

/-!
The nodes of YAML documents, made of tokens. What is left out between two tokens is an empty plain
scalar.
-/
namespace RuleBuild.Yaml

/-- A node. An anchor names the node under it, an alias stands for a node so named. -/
inductive Node (name : Type)
  | scalar (text : String) (style : ScalarStyle) (tag : Option String)
  | sequence (items : List (Node name))
  | mapping (entries : List (Node name × Node name))
  | named (anchor : name) (node : Node name)
  | alias (anchor : name)
  deriving Repr

namespace Node

/-- The node of nothing. -/
def nothing {name : Type} : Node name := .scalar "" .plain none

/-- The tag handles that are known and what they stand for. -/
abbrev Handles := List (String × String)

/-- The handles that need no directive. -/
def standardHandles : Handles := [("!", "!"), ("!!", "tag:yaml.org,2002:")]

/-- The full name of a tag. -/
def fullTag? (handles : Handles) (handle suffix : String) : Option String :=
  if handle = "" then some suffix else (handles.lookup handle).map (· ++ suffix)

/-- The anchor and the tag before a node, in either order, and the tokens after them. -/
def properties? (handles : Handles) :
    List Token → Option (Option String × Option String × List Token)
  | .anchor a :: .tag h s :: ts => do return (some a, some (← fullTag? handles h s), ts)
  | .anchor a :: ts => some (some a, none, ts)
  | .tag h s :: .anchor a :: ts => do return (some a, some (← fullTag? handles h s), ts)
  | .tag h s :: ts => do return (none, some (← fullTag? handles h s), ts)
  | ts => some (none, none, ts)

/-- A node under its anchor. -/
def underAnchor (anchor : Option String) (n : Node String) : Node String :=
  anchor.elim n (Node.named · n)

/-- Whether tokens begin with one that ends an entry of a block collection. -/
def endsBlockEntry : List Token → Bool
  | .entry :: _ => true
  | .blockEnd :: _ => true
  | _ => false

/-- Whether tokens begin with one that ends a key or a value of a block mapping. -/
def endsBlockPart : List Token → Bool
  | .key :: _ => true
  | .value :: _ => true
  | .blockEnd :: _ => true
  | _ => false

/-- Whether tokens begin with one that ends a value in a flow sequence. -/
def endsFlowItem : List Token → Bool
  | .separator :: _ => true
  | .sequenceEnd :: _ => true
  | _ => false

/-- Whether tokens begin with one that ends a value in a flow mapping. -/
def endsFlowValue : List Token → Bool
  | .separator :: _ => true
  | .mappingEnd :: _ => true
  | _ => false

/-- Whether tokens begin with the mark of a value. -/
def beginsValue : List Token → Bool
  | .value :: _ => true
  | _ => false

mutual

/-- A node and the tokens after it. In `block`s, collections may go without brackets; where
`indentless` is set, a sequence may stand at the indentation of its mapping. -/
def read (handles : Handles) : Nat → Bool → Bool → List Token →
    Option (Node String × List Token)
  | 0, _, _, _ => none
  | _ + 1, _, _, .alias name :: ts => some (.alias name, ts)
  | fuel + 1, block, indentless, ts => do
    let (anchor, tag, ts) ← properties? handles ts
    let bare := anchor.isNone && tag.isNone
    let wrap (r : Node String × List Token) : Node String × List Token :=
      (underAnchor anchor r.1, r.2)
    match ts with
    | .entry :: rest =>
      if indentless then (readIndentless handles fuel [] (.entry :: rest)).map wrap
      else if bare then none
      else return wrap (.scalar "" .plain tag, .entry :: rest)
    | .scalar text style :: rest =>
      return wrap (.scalar text style (if tag = some "!" then none else tag), rest)
    | .sequenceStart :: rest => (readItems handles fuel true [] rest).map wrap
    | .mappingStart :: rest => (readMembers handles fuel true [] rest).map wrap
    | .blockSequence :: rest =>
      if block then (readEntries handles fuel [] rest).map wrap
      else if bare then none
      else return wrap (.scalar "" .plain tag, .blockSequence :: rest)
    | .blockMapping :: rest =>
      if block then (readPairs handles fuel [] rest).map wrap
      else if bare then none
      else return wrap (.scalar "" .plain tag, .blockMapping :: rest)
    | rest => if bare then none else return wrap (.scalar "" .plain tag, rest)

/-- The entries of a block sequence. -/
def readEntries (handles : Handles) : Nat → List (Node String) → List Token →
    Option (Node String × List Token)
  | 0, _, _ => none
  | fuel + 1, done, .entry :: ts =>
    if endsBlockEntry ts then readEntries handles fuel (nothing :: done) ts
    else do
      let (n, ts) ← read handles fuel true false ts
      readEntries handles fuel (n :: done) ts
  | _ + 1, done, .blockEnd :: ts => some (.sequence done.reverse, ts)
  | _ + 1, _, _ => none

/-- The entries of a block sequence at the indentation of its mapping. -/
def readIndentless (handles : Handles) : Nat → List (Node String) → List Token →
    Option (Node String × List Token)
  | 0, _, _ => none
  | fuel + 1, done, .entry :: ts =>
    if endsBlockEntry ts || endsBlockPart ts then
      readIndentless handles fuel (nothing :: done) ts
    else do
      let (n, ts) ← read handles fuel true false ts
      readIndentless handles fuel (n :: done) ts
  | _ + 1, done, ts => some (.sequence done.reverse, ts)

/-- The value after a key of a block mapping. -/
def readValue (handles : Handles) : Nat → List Token → Option (Node String × List Token)
  | 0, _ => none
  | fuel + 1, .value :: ts =>
    if endsBlockPart ts then some (nothing, ts) else read handles fuel true true ts
  | _ + 1, ts => some (nothing, ts)

/-- The pairs of a block mapping. -/
def readPairs (handles : Handles) : Nat → List (Node String × Node String) → List Token →
    Option (Node String × List Token)
  | 0, _, _ => none
  | fuel + 1, done, .key :: ts => do
    let (k, ts) ←
      if endsBlockPart ts then some (nothing, ts) else read handles fuel true true ts
    let (v, ts) ← readValue handles fuel ts
    readPairs handles fuel ((k, v) :: done) ts
  | _ + 1, done, .blockEnd :: ts => some (.mapping done.reverse, ts)
  | _ + 1, _, _ => none

/-- The value after a key within brackets, which may be left out. -/
def readFlowValue (handles : Handles) (ends : List Token → Bool) : Nat → List Token →
    Option (Node String × List Token)
  | 0, _ => none
  | fuel + 1, .value :: ts =>
    if ends ts then some (nothing, ts) else read handles fuel false false ts
  | _ + 1, ts => some (nothing, ts)

/-- The items of a flow sequence; a pair among them is a mapping of its own. A comma stands before
each but the first. -/
def readItems (handles : Handles) : Nat → Bool → List (Node String) → List Token →
    Option (Node String × List Token)
  | 0, _, _, _ => none
  | _ + 1, _, done, .sequenceEnd :: ts => some (.sequence done.reverse, ts)
  | fuel + 1, true, done, .key :: ts => do
    let (k, ts) ←
      if beginsValue ts || endsFlowItem ts then some (nothing, ts.tail)
      else read handles fuel false false ts
    let (v, ts) ← readFlowValue handles endsFlowItem fuel ts
    readItems handles fuel false (.mapping [(k, v)] :: done) ts
  | fuel + 1, true, done, ts => do
    let (n, ts) ← read handles fuel false false ts
    readItems handles fuel false (n :: done) ts
  | fuel + 1, false, done, .separator :: ts => readItems handles fuel true done ts
  | _ + 1, false, _, _ => none

/-- The members of a flow mapping; one without a mark is a key without a value. A comma stands
before each but the first. -/
def readMembers (handles : Handles) : Nat → Bool → List (Node String × Node String) → List Token →
    Option (Node String × List Token)
  | 0, _, _, _ => none
  | _ + 1, _, done, .mappingEnd :: ts => some (.mapping done.reverse, ts)
  | fuel + 1, true, done, .key :: ts => do
    let (k, ts) ←
      if beginsValue ts || endsFlowValue ts then some (nothing, ts)
      else read handles fuel false false ts
    let (v, ts) ← readFlowValue handles endsFlowValue fuel ts
    readMembers handles fuel false ((k, v) :: done) ts
  | fuel + 1, true, done, ts => do
    let (n, ts) ← read handles fuel false false ts
    readMembers handles fuel false ((n, nothing) :: done) ts
  | fuel + 1, false, done, .separator :: ts => readMembers handles fuel true done ts
  | _ + 1, false, _, _ => none

end

/-- The directives before a document: whether a version has been given, and the tag handles. -/
def readDirectives (versioned : Bool) (handles : Handles) :
    List Token → Option (Handles × List Token)
  | .version major minor :: ts =>
    if versioned || major ≠ 1 || ! (minor = 1 || minor = 2) then none
    else readDirectives true handles ts
  | .tagPrefix handle expansion :: ts =>
    if (handles.lookup handle).isSome then none
    else readDirectives versioned ((handle, expansion) :: handles) ts
  | ts => some (handles, ts)

/-- Whether tokens begin with one that ends a document that has not begun. -/
def endsDocument : List Token → Bool
  | [] => true
  | .version .. :: _ => true
  | .tagPrefix .. :: _ => true
  | .documentStart :: _ => true
  | .documentEnd :: _ => true
  | _ => false

/-- The tokens after the marks that end a document. -/
def skipEnds (ts : List Token) : List Token := ts.dropWhile (· = .documentEnd)

/-- The documents that follow the first, each of which begins with its mark. -/
def readDocuments : Nat → List (Node String) → List Token → Option (List (Node String))
  | 0, _, _ => none
  | fuel + 1, done, ts =>
    match skipEnds ts with
    | [] => some done.reverse
    | ts => do
      let (own, ts) ← readDirectives false [] ts
      match ts with
      | .documentStart :: ts =>
        if endsDocument ts then readDocuments fuel (nothing :: done) ts
        else do
          let (n, ts) ← read (own ++ standardHandles) (2 * ts.length + 2) true false ts
          readDocuments fuel (n :: done) ts
      | _ => none

/-- The documents of a list of tokens. The first may go without a mark. -/
def ofTokens? (ts : List Token) : Option (List (Node String)) :=
  match ts with
  | .documentEnd :: _ => none
  | ts =>
    if endsDocument ts then readDocuments (ts.length + 1) [] ts
    else do
      let (n, rest) ← read standardHandles (2 * ts.length + 2) true false ts
      readDocuments (ts.length + 1) [n] rest

end Node
end RuleBuild.Yaml
