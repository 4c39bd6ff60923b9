import RuleBuild.Text.Utf8
import RuleBuild.Yaml.Scalar

/-!
The tokens of a YAML text. Block collections have no brackets: they are opened and closed as the
indentation grows and shrinks. A key is known as one only when the colon after it is met, so the
place where a key may begin is kept until then.
-/
namespace RuleBuild.Yaml

/-- The smallest parts of a text that mean something. -/
inductive Token
  | version (major minor : Nat)
  | tagPrefix (handle expansion : String)
  | documentStart
  | documentEnd
  | blockSequence
  | blockMapping
  | blockEnd
  | sequenceStart
  | sequenceEnd
  | mappingStart
  | mappingEnd
  | entry
  | separator
  | key
  | value
  | alias (name : String)
  | anchor (name : String)
  | tag (handle suffix : String)
  | scalar (text : String) (style : ScalarStyle)
  deriving Repr, DecidableEq

/-- A place where a key of one line may have begun: the number of tokens before it. A key that is
required has to be followed by a colon. -/
structure KeyPlace where
  required : Bool
  before : Nat
  line : Nat
  index : Nat
  column : Nat

/-- A text being cut into tokens. The tokens are kept backwards, and counted; `keys` holds a place
for each open flow collection and one for what is outside of them. -/
structure Scanner where
  cursor : Cursor
  indent : Int
  outer : List Int
  keys : List (Option KeyPlace)
  keyAllowed : Bool
  tokens : List Token
  count : Nat

namespace Scanner

/-- The beginning of a text. -/
def start (cs : List Char) : Scanner := ⟨.ofChars cs, -1, [], [none], true, [], 0⟩

/-- Whether a flow collection is open. -/
def inFlow (s : Scanner) : Bool := 1 < s.keys.length

/-- The scanner with one more token. -/
def emit (s : Scanner) (t : Token) : Scanner :=
  { s with tokens := t :: s.tokens, count := s.count + 1 }

/-- The scanner with a token put after the first `n`. -/
def insertAt (s : Scanner) (n : Nat) (t : Token) : Scanner :=
  let later := s.count - n
  { s with tokens := s.tokens.take later ++ t :: s.tokens.drop later, count := s.count + 1 }

/-- The place of the innermost possible key. -/
def keyPlace (s : Scanner) : Option KeyPlace := s.keys.head?.join

/-- Gives up the innermost possible key, which must not be required. -/
def dropKey (s : Scanner) : Option Scanner :=
  match s.keyPlace with
  | some k => if k.required then none else some { s with keys := none :: s.keys.tail }
  | none => some s

/-- The longest key that is written without a question mark. -/
def longestKey : Nat := 1024

/-- Gives up the possible keys that have become too long or reach beyond their line. -/
def dropStaleKeys (s : Scanner) : Option Scanner := do
  let keep (k : Option KeyPlace) : Option (Option KeyPlace) :=
    match k with
    | none => some none
    | some k =>
      if k.line < s.cursor.line || k.index + longestKey < s.cursor.index then
        if k.required then none else some none
      else some (some k)
  return { s with keys := ← s.keys.mapM keep }

/-- Notes that a key may begin here. -/
def noteKey (s : Scanner) : Option Scanner :=
  if s.keyAllowed then do
    let required := ! s.inFlow && s.indent = s.cursor.column
    let place : KeyPlace :=
      ⟨required, s.count, s.cursor.line, s.cursor.index, s.cursor.column⟩
    let s ← s.dropKey
    return { s with keys := some place :: s.keys.tail }
  else some s

/-- Opens a block collection at a column to the right of the indentation; its token stands after the
first `n`. -/
def openBlock (s : Scanner) (column : Nat) (n : Nat) (t : Token) : Scanner :=
  if ! s.inFlow && s.indent < column then
    { s.insertAt n t with indent := column, outer := s.indent :: s.outer }
  else s

/-- Closes the block collections that are indented further than `column`. -/
def closeBlocks (column : Int) : Nat → Scanner → Scanner
  | 0, s => s
  | fuel + 1, s =>
    if column < s.indent then
      closeBlocks column fuel
        { s.emit .blockEnd with indent := s.outer.headD (-1), outer := s.outer.tail }
    else s

/-- Closes the block collections that are indented further than `column`, outside of flow
collections. -/
def close (s : Scanner) (column : Int) : Scanner :=
  if s.inFlow then s else closeBlocks column (s.outer.length + 1) s

/-- Passes over blanks, comments and line ends. A line end outside of flow collections lets a key
begin; where one may begin, a tab is no blank. -/
def skipSpace : Nat → Scanner → Scanner
  | 0, s => s
  | fuel + 1, s =>
    let tabs := s.inFlow || ! s.keyAllowed
    let c := if s.cursor.index = 0 && s.cursor.isAt '\uFEFF' then s.cursor.skip else s.cursor
    let c := c.skipWhile fun ch => ch = ' ' || (tabs && ch = '\t')
    let c := if c.isAt '#' then c.skipLine else c
    match c.readBreak? with
    | some (_, c) => skipSpace fuel { s with cursor := c, keyAllowed := s.keyAllowed || ! s.inFlow }
    | none => { s with cursor := c }

/-- The scanner `n` characters on. -/
def advance (s : Scanner) (n : Nat) : Scanner := { s with cursor := s.cursor.skipN n }

/-- The end of a directive: blanks and a comment up to the end of the line. -/
def endLine (c : Cursor) : Option Cursor :=
  let c := c.skipWhile isBlank
  let c := if c.isAt '#' then c.skipLine else c
  if c.atEnd then some c else c.readBreak?.map (·.2)

/-- Digits and the number they spell. -/
def readNumber (c : Cursor) : Option (Nat × Cursor) :=
  let ds := c.rest.takeWhile Char.isDigit
  if ds.isEmpty || 9 < ds.length then none
  else some (ds.foldl (fun n d => n * 10 + (d.toNat - '0'.toNat)) 0, c.skipN ds.length)

/-- A tag handle: an exclamation mark, and word characters with another one after them. -/
def readHandle (c : Cursor) : Option (List Char × Cursor) :=
  if c.isAt '!' then
    let word := c.rest.tail.takeWhile isWordChar
    let c := c.skipN (word.length + 1)
    if c.isAt '!' then some ('!' :: word ++ ['!'], c.skip) else some ('!' :: word, c)
  else none

/-- The characters of a tag; commas and brackets only where it is written in angle brackets. -/
def isTagChar (whole : Bool) (c : Char) : Bool :=
  isWordChar c || (";/?:@&=+$%.!~*'()".toList.contains c) || (whole && ",[]".toList.contains c)

/-- Bytes given by percent signs and hexadecimal digits, together one character. -/
def percentBytes : List Char → List UInt8
  | '%' :: a :: b :: cs =>
    match Text.hexDigit? a, Text.hexDigit? b with
    | some x, some y => UInt8.ofNat (x * 16 + y) :: percentBytes cs
    | _, _ => []
  | _ => []

/-- The characters of a tag with percent signs replaced, none where they stand for nothing. -/
def decodeTag : Nat → List Char → Option (List Char)
  | 0, _ => some []
  | _ + 1, [] => some []
  | fuel + 1, '%' :: cs =>
    let bytes := percentBytes ('%' :: cs)
    let width := (bytes.head?.map fun b =>
      if b < 0x80 then 1 else if b < 0xE0 then 2 else if b < 0xF0 then 3 else 4).getD 0
    match Utf8.decode (bytes.take width) with
    | .ok s =>
      if width = 0 ∨ bytes.length < width then none
      else (decodeTag fuel (cs.drop (3 * width - 1))).map (s.toList ++ ·)
    | .error _ => none
  | fuel + 1, c :: cs => (decodeTag fuel cs).map (c :: ·)

/-- The characters of a tag and the place after them. -/
def readTagText (whole : Bool) (c : Cursor) : Option (List Char × Cursor) :=
  let text := c.rest.takeWhile (isTagChar whole)
  (decodeTag (text.length + 1) text).map (·, c.skipN text.length)

/-- A directive line. -/
def directive (s : Scanner) : Option Scanner := do
  let s := s.close (-1)
  let s ← s.dropKey
  let c := s.cursor.skip
  let name := c.rest.takeWhile isWordChar
  let c := c.skipN name.length
  if name.isEmpty || ! c.gapAt 0 then none
  else
    let c := c.skipWhile isBlank
    let (token, c) ←
      if name = "YAML".toList then do
        let (major, c) ← readNumber c
        if ! c.isAt '.' then none
        else
          let (minor, c) ← readNumber c.skip
          some (Token.version major minor, c)
      else if name = "TAG".toList then do
        let (handle, c) ← readHandle c
        if handle ≠ ['!'] && handle.getLast? ≠ some '!' then none
        else if ! c.blankAt 0 then none
        else
          let (text, c) ← readTagText true (c.skipWhile isBlank)
          if text.isEmpty || ! c.gapAt 0 then none
          else some (Token.tagPrefix (String.ofList handle) (String.ofList text), c)
      else none
    let c ← endLine c
    return { s.emit token with cursor := c, keyAllowed := false }

/-- The beginning or the end of a document. -/
def documentMark (s : Scanner) (t : Token) : Option Scanner := do
  let s ← (s.close (-1)).dropKey
  return { (s.emit t).advance 3 with keyAllowed := false }

/-- The beginning of a flow collection. -/
def openFlow (s : Scanner) (t : Token) : Option Scanner := do
  let s ← s.noteKey
  return { (s.emit t).advance 1 with keys := none :: s.keys, keyAllowed := true }

/-- The end of a flow collection. -/
def closeFlow (s : Scanner) (t : Token) : Option Scanner := do
  let s ← s.dropKey
  let keys := if s.inFlow then s.keys.tail else s.keys
  return { (s.emit t).advance 1 with keys, keyAllowed := false }

/-- A comma between the entries of a flow collection. -/
def flowEntry (s : Scanner) : Option Scanner := do
  let s ← s.dropKey
  return { (s.emit .separator).advance 1 with keyAllowed := true }

/-- A dash before an entry of a block sequence. -/
def blockEntry (s : Scanner) : Option Scanner :=
  if ! s.inFlow && ! s.keyAllowed then none
  else do
    let s ← (s.openBlock s.cursor.column s.count .blockSequence).dropKey
    return { (s.emit .entry).advance 1 with keyAllowed := true }

/-- A question mark before a key. -/
def keyMark (s : Scanner) : Option Scanner :=
  if ! s.inFlow && ! s.keyAllowed then none
  else do
    let s ← (s.openBlock s.cursor.column s.count .blockMapping).dropKey
    return { (s.emit .key).advance 1 with keyAllowed := ! s.inFlow }

/-- A colon before a value. -/
def valueMark (s : Scanner) : Option Scanner :=
  match s.keyPlace with
  | some k =>
    let s := (s.insertAt k.before .key).openBlock k.column k.before .blockMapping
    some { (s.emit .value).advance 1 with keys := none :: s.keys.tail, keyAllowed := false }
  | none =>
    if ! s.inFlow && ! s.keyAllowed then none
    else
      let s := s.openBlock s.cursor.column s.count .blockMapping
      some { (s.emit .value).advance 1 with keyAllowed := ! s.inFlow }

/-- The characters that may follow an anchor beside blanks and line ends. -/
def endsAnchor (c : Char) : Bool := "?:,]\x7d%@\u0060".toList.contains c

/-- An anchor or an alias. -/
def anchor (s : Scanner) (token : String → Token) : Option Scanner := do
  let s ← s.noteKey
  let c := s.cursor.skip
  let name := c.rest.takeWhile isWordChar
  let c := c.skipN name.length
  if name.isEmpty || ! (c.gapAt 0 || c.peek.any endsAnchor) then none
  else return { s.emit (token (String.ofList name)) with cursor := c, keyAllowed := false }

/-- The handle and the suffix of a tag, and the place after it. -/
def readTag (c : Cursor) : Option (List Char × List Char × Cursor) := do
  if c.peekAt 1 = some '<' then
    let (suffix, c) ← readTagText true (c.skipN 2)
    if suffix.isEmpty || ! c.isAt '>' then none else return ([], suffix, c.skip)
  else
    let (handle, after) ← readHandle c
    if 1 < handle.length && handle.getLast? = some '!' then
      let (suffix, c) ← readTagText false after
      if suffix.isEmpty then none else return (handle, suffix, c)
    else
      let (rest, c) ← readTagText false after
      let suffix := handle.drop 1 ++ rest
      return if suffix.isEmpty then ([], ['!'], c) else (['!'], suffix, c)

/-- A tag. -/
def tag (s : Scanner) : Option Scanner := do
  let s ← s.noteKey
  let (handle, suffix, c) ← readTag s.cursor
  if c.gapAt 0 || (s.inFlow && c.isAt ',') then
    return { s.emit (.tag (String.ofList handle) (String.ofList suffix)) with
      cursor := c, keyAllowed := false }
  else none

/-- A scalar in a block. -/
def blockScalar (s : Scanner) (fold : Bool) : Option Scanner := do
  let s ← s.dropKey
  let (text, c) ← readBlock fold s.indent s.cursor.skip
  return { s.emit (.scalar (String.ofList text) (if fold then .folded else .literal)) with
    cursor := c, keyAllowed := true }

/-- A quoted scalar. -/
def quotedScalar (s : Scanner) (single : Bool) : Option Scanner := do
  let s ← s.noteKey
  let (text, c) ← readQuoted single s.cursor.bound .empty s.cursor.skip
  return { s.emit (.scalar (String.ofList text) .quoted) with cursor := c, keyAllowed := false }

/-- A plain scalar. -/
def plainScalar (s : Scanner) : Option Scanner := do
  let s ← s.noteKey
  let least := (s.indent + 1).toNat
  let (text, c, broken) ←
    readPlain s.inFlow least s.cursor.bound .empty s.cursor
  return { s.emit (.scalar (String.ofList text) .plain) with cursor := c, keyAllowed := broken }

/-- The characters that no plain scalar begins with, whatever follows them. -/
def isIndicator (c : Char) : Bool := "-?:,[]\x7b\x7d#&*!|>'\"%@\u0060".toList.contains c

/-- Whether a plain scalar begins here. A dash, a question mark or a colon begins one if no gap
follows. -/
def startsPlain (s : Scanner) (ch : Char) : Bool :=
  ! (isBlank ch || isBreak ch || isIndicator ch)
    || (ch = '-' && ! s.cursor.blankAt 1)
    || (! s.inFlow && (ch = '?' || ch = ':') && ! s.cursor.gapAt 1)

/-- The next token, after blanks have been passed over. -/
def next (s : Scanner) (ch : Char) : Option Scanner :=
  let c := s.cursor
  let marks := s.inFlow || c.gapAt 1
  if c.column = 0 && ch = '%' then s.directive
  else if c.atMark '-' then s.documentMark .documentStart
  else if c.atMark '.' then s.documentMark .documentEnd
  else if ch = '[' then s.openFlow .sequenceStart
  else if ch = '\x7b' then s.openFlow .mappingStart
  else if ch = ']' then s.closeFlow .sequenceEnd
  else if ch = '\x7d' then s.closeFlow .mappingEnd
  else if ch = ',' then s.flowEntry
  else if ch = '-' && c.gapAt 1 then s.blockEntry
  else if ch = '?' && marks then s.keyMark
  else if ch = ':' && marks then s.valueMark
  else if ch = '*' then s.anchor .alias
  else if ch = '&' then s.anchor .anchor
  else if ch = '!' then s.tag
  else if ch = '|' && ! s.inFlow then s.blockScalar false
  else if ch = '>' && ! s.inFlow then s.blockScalar true
  else if ch = '\'' then s.quotedScalar true
  else if ch = '"' then s.quotedScalar false
  else if s.startsPlain ch then s.plainScalar
  else none

/-- The end of the text closes all block collections. -/
def finish (s : Scanner) : Option (List Token) := do
  let s ← (s.close (-1)).dropKey
  return s.tokens.reverse

/-- The tokens from here to the end of the text. -/
def run : Nat → Scanner → Option (List Token)
  | 0, _ => none
  | fuel + 1, s => do
    let s := skipSpace s.cursor.bound s
    let s ← s.dropStaleKeys
    let s := s.close s.cursor.column
    match s.cursor.peek with
    | none => s.finish
    | some ch => run fuel (← s.next ch)

end Scanner

/-- The tokens of a text. A byte order mark may come first. -/
def tokens? (s : String) : Option (List Token) :=
  let cs := s.toList
  let cs := if cs.head? = some '\uFEFF' then cs.tail else cs
  if cs.all isPrintable then Scanner.run (cs.length + 1) (.start cs) else none

end RuleBuild.Yaml
