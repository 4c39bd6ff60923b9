import RuleBuild.Text.Hex

/-!
The parts that TOML texts are made of below values: gaps between the words of a line and between
lines, and quoted texts. A quoted text ends at its own quote; a text between three quotes may go
over several lines.
-/
namespace RuleBuild.Toml

/-- Whoever reads the beginning of a text and leaves the rest. -/
abbrev Reader (α : Type) := List Char → Option (α × List Char)

/-- The text after one of the characters `marks`. -/
def afterMark? (marks : List Char) : List Char → Option (List Char)
  | c :: cs => if c ∈ marks then some cs else none
  | [] => none

/-- A space or a tab. -/
def isBlank (c : Char) : Bool := c = ' ' || c = '\t'

/-- The characters that comments and quoted texts may hold as they are. -/
def isPlain (c : Char) : Bool := c = '\t' || (' ' ≤ c && c ≠ '\x7f')

/-- The text after blanks. -/
def skipBlanks (cs : List Char) : List Char := cs.dropWhile isBlank

/-- The text after a line end. A carriage return counts only before a line feed. -/
def newline? : List Char → Option (List Char)
  | '\n' :: cs => some cs
  | '\r' :: '\n' :: cs => some cs
  | _ => none

/-- The text after a comment, if there is one. -/
def skipComment : List Char → List Char
  | '#' :: cs => cs.dropWhile isPlain
  | cs => cs

/-- The text after the rest of a line that holds nothing but blanks and a comment. -/
def endLine? (cs : List Char) : Option (List Char) :=
  match skipComment (skipBlanks cs) with
  | [] => some []
  | cs => newline? cs

/-- The text after blanks, comments and line ends. -/
def skipLines : Nat → List Char → List Char
  | 0, cs => cs
  | fuel + 1, cs =>
    match newline? (skipComment (skipBlanks cs)) with
    | some cs => skipLines fuel cs
    | none => skipBlanks cs

/-- The text from the next word on, on this line or a later one. -/
def skipGap (cs : List Char) : List Char := skipLines (cs.length + 1) cs

/-- The character of a one-letter escape. -/
def escaped? : Char → Option Char
  | 'b' => some '\x08'
  | 't' => some '\t'
  | 'n' => some '\n'
  | 'f' => some '\x0c'
  | 'r' => some '\r'
  | 'e' => some '\x1b'
  | '"' => some '"'
  | '\\' => some '\\'
  | _ => none

/-- The number of hexadecimal digits after a letter that begins an escape. -/
def escapeLength? : Char → Option Nat
  | 'x' => some 2
  | 'u' => some 4
  | 'U' => some 8
  | _ => none

/-- The character of an escape after its backslash. -/
def readEscape : Reader Char
  | [] => none
  | e :: cs =>
    match escaped? e with
    | some c => some (c, cs)
    | none => do
      let n ← escapeLength? e
      return (← Text.hexChar? cs n, cs.drop n)

/-- The text after a backslash that stands at the end of its line: the line end and all blanks and
line ends after it vanish. -/
def joinLines? (cs : List Char) : Option (List Char) :=
  (newline? (skipBlanks cs)).map fun cs =>
    cs.dropWhile fun c => isBlank c || c = '\n' || c = '\r'

/-- Quotation marks. Texts in the double ones have escapes. -/
inductive Quote
  | single
  | double
  deriving Repr, DecidableEq

/-- The character of a quotation mark. -/
def Quote.mark : Quote → Char
  | .single => '\''
  | .double => '"'

/-- The rest of a text of one line, after its opening quote. What has been read is kept
backwards. -/
def readLineText (q : Quote) : Nat → List Char → Reader String
  | 0, _, _ => none
  | _ + 1, _, [] => none
  | fuel + 1, done, c :: cs =>
    if c = q.mark then some (String.ofList done.reverse, cs)
    else if c = '\\' && q = .double then do
      let (c, cs) ← readEscape cs
      readLineText q fuel (c :: done) cs
    else if isPlain c then readLineText q fuel (c :: done) cs
    else none

/-- The rest of a text of several lines, after its opening quotes. Three quotes end it; of those
that follow at once, up to two belong to it. What has been read is kept backwards. -/
def readLongText (q : Quote) : Nat → List Char → Reader String
  | 0, _, _ => none
  | _ + 1, _, [] => none
  | fuel + 1, done, c :: cs =>
    if c = q.mark && cs.take 2 = [c, c] then
      let cs := cs.drop 2
      let more := (cs.take 2).takeWhile (· = c)
      some (String.ofList (more ++ done).reverse, cs.drop more.length)
    else if c = '\\' && q = .double then
      match joinLines? cs with
      | some cs => readLongText q fuel done cs
      | none => do
        let (c, cs) ← readEscape cs
        readLongText q fuel (c :: done) cs
    else if isPlain c || c = '\n' || (c = '\r' && cs.head? = some '\n') then
      readLongText q fuel (c :: done) cs
    else none

/-- A text after its opening quote. -/
def readText (q : Quote) : Reader String := fun cs =>
  if cs.take 2 = [q.mark, q.mark] then
    let cs := cs.drop 2
    readLongText q (cs.length + 1) [] ((newline? cs).getD cs)
  else readLineText q (cs.length + 1) [] cs

end RuleBuild.Toml
