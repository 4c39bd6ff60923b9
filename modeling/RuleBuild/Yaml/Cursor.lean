/-!
A place in a YAML text, with the line and column it lies in, and the classes of characters that the
format tells apart.
-/
namespace RuleBuild.Yaml

/-- The rest of a text and where it begins, and the size of the whole text. -/
structure Cursor where
  rest : List Char
  line : Nat
  column : Nat
  index : Nat
  size : Nat

/-- The characters that end a line. -/
def isBreak (c : Char) : Bool :=
  c = '\n' || c = '\r' || c = '\u0085' || c = '\u2028' || c = '\u2029'

/-- A space or a tab. -/
def isBlank (c : Char) : Bool := c = ' ' || c = '\t'

/-- The characters of anchors and tag handles. -/
def isWordChar (c : Char) : Bool := c.isAlphanum || c = '_' || c = '-'

/-- The characters that a text may hold at all. -/
def isPrintable (c : Char) : Bool :=
  let n := c.toNat
  n = 0x09 || n = 0x0A || n = 0x0D || (0x20 ≤ n && n ≤ 0x7E) || n = 0x85
    || (0xA0 ≤ n && n ≤ 0xFFFD) || 0x10000 ≤ n

namespace Cursor

/-- The beginning of a text. -/
def ofChars (cs : List Char) : Cursor := ⟨cs, 0, 0, 0, cs.length⟩

/-- A bound of the steps that a reader can take. -/
def bound (c : Cursor) : Nat := c.size + 1

/-- The next character. -/
def peek (c : Cursor) : Option Char := c.rest.head?

/-- The character `n` places on. -/
def peekAt (c : Cursor) (n : Nat) : Option Char := c.rest[n]?

/-- Whether the next character is `ch`. -/
def isAt (c : Cursor) (ch : Char) : Bool := c.peek = some ch

/-- Whether the text has ended. -/
def atEnd (c : Cursor) : Bool := c.rest.isEmpty

/-- Whether a blank stands `n` places on. -/
def blankAt (c : Cursor) (n : Nat) : Bool := (c.peekAt n).any isBlank

/-- Whether a line ends `n` places on. -/
def breakAt (c : Cursor) (n : Nat) : Bool := (c.peekAt n).any isBreak

/-- Whether a word cannot go on `n` places on: there is a blank, a line end, or nothing. -/
def gapAt (c : Cursor) (n : Nat) : Bool :=
  match c.peekAt n with
  | none => true
  | some ch => isBlank ch || isBreak ch

/-- The place after the next character. -/
def skip (c : Cursor) : Cursor :=
  { c with rest := c.rest.tail, column := c.column + 1, index := c.index + 1 }

/-- The place `n` characters on, on the same line. -/
def skipN (c : Cursor) (n : Nat) : Cursor :=
  { c with rest := c.rest.drop n, column := c.column + n, index := c.index + n }

/-- The line end that stands next, as it counts in a value, and the beginning of the next line. -/
def readBreak? (c : Cursor) : Option (Char × Cursor) :=
  let next (n : Nat) : Cursor := ⟨c.rest.drop n, c.line + 1, 0, c.index + n, c.size⟩
  match c.rest with
  | '\r' :: '\n' :: _ => some ('\n', next 2)
  | ch :: _ =>
    if ch = '\u2028' || ch = '\u2029' then some (ch, next 1)
    else if isBreak ch then some ('\n', next 1)
    else none
  | [] => none

/-- The place after the characters that satisfy `p`, which are no line ends. -/
def skipWhile (c : Cursor) (p : Char → Bool) : Cursor :=
  c.skipN (c.rest.takeWhile p).length

/-- The end of the line. -/
def skipLine (c : Cursor) : Cursor := c.skipWhile fun ch => ! isBreak ch

/-- Whether three equal characters that begin or end a document stand at the start of a line. -/
def atMark (c : Cursor) (ch : Char) : Bool :=
  c.column = 0 && c.rest.take 3 = [ch, ch, ch] && c.gapAt 3

/-- Whether a document begins or ends here. -/
def atDocumentMark (c : Cursor) : Bool := c.atMark '-' || c.atMark '.'

end Cursor
end RuleBuild.Yaml
