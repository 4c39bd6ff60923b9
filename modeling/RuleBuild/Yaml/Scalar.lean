import RuleBuild.Text.Hex
import RuleBuild.Yaml.Cursor

/-!
Scalars in their styles: plain, quoted, and in blocks. Line ends within plain and quoted scalars are
folded: one becomes a space, of several all but the first are kept.
-/
namespace RuleBuild.Yaml

/-- How a scalar is written. -/
inductive ScalarStyle
  | plain
  | quoted
  | literal
  | folded
  deriving Repr, DecidableEq

/-- A scalar being read: its text and what stands after it on the way to the next character, a run
of blanks or line ends. Texts are kept backwards. -/
structure Folding where
  text : List Char
  blanks : List Char
  first : List Char
  more : List Char
  broken : Bool

namespace Folding

/-- Nothing read yet. -/
def empty : Folding := ⟨[], [], [], [], false⟩

/-- The text with the run after it folded into it. -/
def fold (f : Folding) : Folding :=
  let run :=
    if ! f.broken then f.blanks
    else if f.first = ['\n'] then (if f.more.isEmpty then [' '] else f.more)
    else f.more ++ f.first
  ⟨run ++ f.text, [], [], [], false⟩

/-- The text with one more character. -/
def push (f : Folding) (c : Char) : Folding := { f with text := c :: f.text }

/-- The run with one more blank; blanks after a line end do not count. -/
def blank (f : Folding) (c : Char) : Folding :=
  if f.broken then f else { f with blanks := c :: f.blanks }

/-- The run with one more line end. -/
def lineEnd (f : Folding) (c : Char) : Folding :=
  if f.broken then { f with more := c :: f.more }
  else { f with blanks := [], first := [c], broken := true }

end Folding

/-- A run of blanks and line ends. Below the column `least`, no tab may follow a line end. -/
def readRun (least : Nat) : Nat → Folding → Cursor → Option (Folding × Cursor)
  | 0, f, c => some (f, c)
  | fuel + 1, f, c =>
    match c.peek with
    | none => some (f, c)
    | some ch =>
      if isBlank ch then
        if f.broken && c.column < least && ch = '\t' then none
        else readRun least fuel (f.blank ch) c.skip
      else
        match c.readBreak? with
        | some (e, c) => readRun least fuel (f.lineEnd e) c
        | none => some (f, c)

/-- The character of a one-letter escape. -/
def escaped? : Char → Option Char
  | '0' => some '\x00'
  | 'a' => some '\x07'
  | 'b' => some '\x08'
  | 't' => some '\t'
  | '\t' => some '\t'
  | 'n' => some '\n'
  | 'v' => some '\x0b'
  | 'f' => some '\x0c'
  | 'r' => some '\r'
  | 'e' => some '\x1b'
  | ' ' => some ' '
  | '"' => some '"'
  | '/' => some '/'
  | '\\' => some '\\'
  | 'N' => some '\u0085'
  | '_' => some '\u00a0'
  | 'L' => some '\u2028'
  | 'P' => some '\u2029'
  | _ => none

/-- The number of hexadecimal digits after a letter that begins an escape. -/
def escapeLength? : Char → Option Nat
  | 'x' => some 2
  | 'u' => some 4
  | 'U' => some 8
  | _ => none

/-- The characters of a quoted scalar up to a quote, a blank or a line end. A line end after a
backslash vanishes. -/
def readWord (single : Bool) : Nat → Folding → Cursor → Option (Folding × Cursor)
  | 0, _, _ => none
  | fuel + 1, f, c =>
    match c.rest with
    | [] => some (f, c)
    | '\'' :: '\'' :: _ =>
      if single then readWord single fuel (f.push '\'') (c.skipN 2)
      else readWord single fuel (f.push '\'') c.skip
    | '\\' :: e :: rest =>
      if single then readWord single fuel (f.push '\\') c.skip
      else if isBreak e then
        match c.skip.readBreak? with
        | some (_, c) => some ({ f with broken := true }, c)
        | none => none
      else
        match escaped? e with
        | some ch => readWord single fuel (f.push ch) (c.skipN 2)
        | none => do
          let n ← escapeLength? e
          let ch ← Text.hexChar? rest n
          readWord single fuel (f.push ch) (c.skipN (2 + n))
    | ch :: _ =>
      if isBlank ch || isBreak ch || ch = (if single then '\'' else '"') then some (f, c)
      else if ch = '\\' && ! single then none
      else readWord single fuel (f.push ch) c.skip

/-- The rest of a quoted scalar and the place after its closing quote. -/
def readQuoted (single : Bool) : Nat → Folding → Cursor → Option (List Char × Cursor)
  | 0, _, _ => none
  | fuel + 1, f, c =>
    if c.atDocumentMark || c.atEnd then none
    else
      match readWord single c.bound f c with
      | none => none
      | some (f, c) =>
        if c.isAt (if single then '\'' else '"') then some (f.text.reverse, c.skip)
        else
          match readRun 0 c.bound f c with
          | some (f, c) => readQuoted single fuel f.fold c
          | none => none

/-- The characters that delimit collections written in one line. -/
def isFlowMark (c : Char) : Bool := c = ',' || c = '[' || c = ']' || c = '\x7b' || c = '\x7d'

/-- The characters of a plain scalar up to a blank, a line end or what ends it. -/
def readPlainWord (inFlow : Bool) : Nat → Folding → Cursor → Option (Folding × Cursor)
  | 0, f, c => some (f, c)
  | fuel + 1, f, c =>
    match c.peek with
    | none => some (f, c)
    | some ch =>
      if isBlank ch || isBreak ch then some (f, c)
      else if inFlow && ch = ':' && (c.peekAt 1).any fun d => isFlowMark d || d = '?' then none
      else if ch = ':' && c.gapAt 1 then some (f, c)
      else if inFlow && isFlowMark ch then some (f, c)
      else readPlainWord inFlow fuel (f.fold.push ch) c.skip

/-- The rest of a plain scalar, the place after it, and whether a line ended after it. Outside of
flow collections, its lines are indented to the column `least`. -/
def readPlain (inFlow : Bool) (least : Nat) : Nat → Folding → Cursor →
    Option (List Char × Cursor × Bool)
  | 0, f, c => some (f.text.reverse, c, f.broken)
  | fuel + 1, f, c =>
    if c.atDocumentMark || c.isAt '#' then some (f.text.reverse, c, f.broken)
    else
      match readPlainWord inFlow c.bound f c with
      | none => none
      | some (f, c) =>
        if ! (c.blankAt 0 || c.breakAt 0) then some (f.text.reverse, c, f.broken)
        else
          match readRun least c.bound f c with
          | none => none
          | some (f, c) =>
            if ! inFlow && c.column < least then some (f.text.reverse, c, f.broken)
            else readPlain inFlow least fuel f c

/-- What becomes of the line ends after the last line of a block scalar. -/
inductive Chomping
  | strip
  | clip
  | keep
  deriving Repr, DecidableEq

/-- The chomping that a sign stands for. -/
def chomping? : Option Char → Option Chomping
  | some '+' => some .keep
  | some '-' => some .strip
  | _ => none

/-- The indentation that a digit stands for. -/
def increment? : Option Char → Option Nat
  | some c => if c.isDigit then some (c.toNat - '0'.toNat) else none
  | none => none

/-- The header of a block scalar, a sign and a digit in either order, and the place after it. -/
def readHeader (c : Cursor) : Chomping × Option Nat × Cursor :=
  match chomping? c.peek, increment? c.peek with
  | some ch, _ =>
    match increment? (c.peekAt 1) with
    | some n => (ch, some n, c.skipN 2)
    | none => (ch, none, c.skip)
  | none, some n =>
    match chomping? (c.peekAt 1) with
    | some ch => (ch, some n, c.skipN 2)
    | none => (.clip, some n, c.skip)
  | none, none => (.clip, none, c)

/-- Empty lines and indentation before a line of a block scalar. `indent` is zero as long as it is
not known; `widest` is the widest indentation met. The line ends are kept backwards. -/
def readBreaks (indent : Nat) : Nat → Nat → List Char → Cursor → Option (Nat × List Char × Cursor)
  | 0, widest, breaks, c => some (widest, breaks, c)
  | fuel + 1, widest, breaks, c =>
    let spaces := (c.rest.takeWhile (· = ' ')).length
    let c := c.skipN (if indent = 0 then spaces else min spaces (indent - c.column))
    let widest := max widest c.column
    if (indent = 0 || c.column < indent) && c.isAt '\t' then none
    else
      match c.readBreak? with
      | some (e, c) => readBreaks indent fuel widest (e :: breaks) c
      | none => some (widest, breaks, c)

/-- A block scalar being read: its text, the line end after its last line and those after that, and
whether the last line begins with a blank. All are kept backwards. -/
structure BlockText where
  text : List Char
  last : List Char
  breaks : List Char
  indented : Bool

/-- The lines of a block scalar that are indented to `indent`. -/
def readLines (fold : Bool) (indent : Nat) : Nat → BlockText → Cursor → Option (BlockText × Cursor)
  | 0, b, c => some (b, c)
  | fuel + 1, b, c =>
    if c.column ≠ indent || c.atEnd then some (b, c)
    else
      let blank := c.blankAt 0
      let joined :=
        if fold && b.last = ['\n'] && ! b.indented && ! blank then
          if b.breaks.isEmpty then ' ' :: b.text else b.breaks ++ b.text
        else b.breaks ++ b.last ++ b.text
      let line := c.rest.takeWhile fun ch => ! isBreak ch
      let c := c.skipN line.length
      let (last, c) :=
        match c.readBreak? with
        | some (e, c) => ([e], c)
        | none => ([], c)
      match readBreaks indent c.bound 0 [] c with
      | some (_, breaks, c) =>
        readLines fold indent fuel ⟨line.reverse ++ joined, last, breaks, blank⟩ c
      | none => none

/-- A block scalar after its indicator, within a collection at the column `parent`, and the place
after it. -/
def readBlock (fold : Bool) (parent : Int) (c : Cursor) : Option (List Char × Cursor) := do
  let (chomping, increment, c) := readHeader c
  if increment = some 0 then none
  else
    let c := c.skipWhile isBlank
    let c := if c.isAt '#' then c.skipLine else c
    if ! (c.atEnd || c.breakAt 0) then none
    else
      let c := (c.readBreak?.map (·.2)).getD c
      let given : Nat := increment.elim 0 fun n => (if 0 ≤ parent then parent + n else n).toNat
      let (widest, breaks, c) ← readBreaks given c.bound 0 [] c
      let indent := if given = 0 then max widest (max (parent + 1).toNat 1) else given
      let (b, c) ← readLines fold indent c.bound ⟨[], [], breaks, false⟩ c
      let text := if chomping = .strip then b.text else b.last ++ b.text
      let text := if chomping = .keep then b.breaks ++ text else text
      return (text.reverse, c)

end RuleBuild.Yaml
