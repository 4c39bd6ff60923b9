import RuleBuild.Json.Basic
import RuleBuild.Text.Hex
import RuleBuild.Text.Utf8

/-!
Reading JSON text. The text is read as characters with gaps, a gap standing for bytes that encode
no character: gaps are allowed inside strings only, and make the string unreadable. Numbers beyond
the doubles, strings with half a surrogate pair and containers nested too deeply are unreadable too;
all else that is no JSON makes the whole text invalid.
-/
namespace RuleBuild.Json

/-- Characters of a text, with nothing where bytes encode none. -/
abbrev Glyphs := List (Option Char)

/-- The four characters that may stand between tokens. -/
def isSpace : Option Char → Bool
  | some c => c = ' ' || c = '\n' || c = '\t' || c = '\r'
  | none => false

/-- The text from the next token on. -/
def skipSpace (gs : Glyphs) : Glyphs := gs.dropWhile isSpace

/-- The value of a decimal digit. -/
def digit? : Option Char → Option Nat
  | some c => if c.isDigit then some (c.toNat - '0'.toNat) else none
  | none => none

/-- A part of a string literal: a character, a 16-bit unit written as an escape, or a gap. -/
inductive Part
  | char (c : Char)
  | unit (n : Nat)
  | gap

/-- The character that a one-letter escape stands for. -/
def escaped? : Char → Option Char
  | '"' => some '"'
  | '\\' => some '\\'
  | '/' => some '/'
  | 'b' => some '\x08'
  | 'f' => some '\x0c'
  | 'n' => some '\n'
  | 'r' => some '\r'
  | 't' => some '\t'
  | _ => none

/-- The 16-bit unit of four hexadecimal digits. -/
def unit? (a b c d : Option Char) : Option Nat := do
  let digit (g : Option Char) : Option Nat := g.bind Text.hexDigit?
  return (((← digit a) * 16 + (← digit b)) * 16 + (← digit c)) * 16 + (← digit d)

/-- The parts of a string literal after its opening quote, and the text after its closing one. -/
def readString (read : List Part) : Glyphs → Option (List Part × Glyphs)
  | [] => none
  | none :: gs => readString (.gap :: read) gs
  | some '"' :: gs => some (read.reverse, gs)
  | some '\\' :: some 'u' :: a :: b :: c :: d :: gs =>
    match unit? a b c d with
    | some n => readString (.unit n :: read) gs
    | none => none
  | some '\\' :: some e :: gs =>
    match escaped? e with
    | some c => readString (.char c :: read) gs
    | none => none
  | some c :: gs => if c = '\\' || c.toNat < 32 then none else readString (.char c :: read) gs

/-- The first unit of a surrogate pair. -/
def isHigh (n : Nat) : Bool := 0xD800 ≤ n && n < 0xDC00

/-- The second unit of a surrogate pair. -/
def isLow (n : Nat) : Bool := 0xDC00 ≤ n && n < 0xE000

/-- The characters of a literal's parts: a high unit and the low one after it are one character,
neither may stand alone, and a gap spoils the whole. -/
def assemble (done : List Char) : List Part → Option (List Char)
  | [] => some done.reverse
  | .char c :: ps => assemble (c :: done) ps
  | .gap :: _ => none
  | .unit h :: .unit l :: ps =>
    if isHigh h then
      if isLow l then
        assemble (Char.ofNat (0x10000 + (h - 0xD800) * 0x400 + (l - 0xDC00)) :: done) ps
      else none
    else if isLow h then none
    else assemble (Char.ofNat h :: done) (.unit l :: ps)
  | .unit n :: ps => if isHigh n || isLow n then none else assemble (Char.ofNat n :: done) ps

/-- The string of a literal's parts. -/
def text? (parts : List Part) : Option String :=
  (assemble [] parts).map String.ofList

/-- The digits at the front of a text. -/
def digits (gs : Glyphs) : List Nat × Glyphs :=
  ((gs.takeWhile (digit? · |>.isSome)).filterMap digit?, gs.dropWhile (digit? · |>.isSome))

/-- A number as written: the digits before and after the point and the exponent. -/
structure Literal where
  negative : Bool
  whole : List Nat
  fraction : Option (List Nat)
  exponent : Option (Bool × List Nat)

/-- The digits after a point, at least one. -/
def readFraction : Glyphs → Option (Option (List Nat) × Glyphs)
  | some '.' :: gs =>
    match digits gs with
    | ([], _) => none
    | (ds, gs) => some (some ds, gs)
  | gs => some (none, gs)

/-- The sign of an exponent, negative if true. -/
def readSign : Glyphs → Bool × Glyphs
  | some '+' :: gs => (false, gs)
  | some '-' :: gs => (true, gs)
  | gs => (false, gs)

/-- An exponent with at least one digit. -/
def readExponent : Glyphs → Option (Option (Bool × List Nat) × Glyphs)
  | some c :: gs =>
    if c = 'e' || c = 'E' then
      let (negative, gs) := readSign gs
      match digits gs with
      | ([], _) => none
      | (ds, gs) => some (some (negative, ds), gs)
    else some (none, some c :: gs)
  | gs => some (none, gs)

/-- A number literal after its sign. No digit may follow a leading zero. -/
def readLiteral (negative : Bool) (gs : Glyphs) : Option (Literal × Glyphs) :=
  match digits gs with
  | ([], _) => none
  | (0 :: _ :: _, _) => none
  | (whole, gs) => do
    let (fraction, gs) ← readFraction gs
    let (exponent, gs) ← readExponent gs
    return (⟨negative, whole, fraction, exponent⟩, gs)

/-- The greatest significand that is kept exactly. -/
def greatestSignificand : Nat := 0xFFFFFFFFFFFFFFFF

/-- Digits taken into a significand, and how many did not fit any more. -/
structure Gathered where
  significand : Nat
  taken : Nat
  left : Nat

/-- Takes a digit if the significand still fits and none was left out before. -/
def Gathered.add (g : Gathered) (d : Nat) : Gathered :=
  if g.left = 0 && g.significand * 10 + d ≤ greatestSignificand then
    ⟨g.significand * 10 + d, g.taken + 1, 0⟩
  else { g with left := g.left + 1 }

/-- The number of digits in base ten. -/
def ofDigits (ds : List Nat) : Nat := ds.foldl (fun n d => n * 10 + d) 0

/-- The number that a literal stands for. Digits beyond a significand of 64 bits count as zeros. -/
def Literal.number? (l : Literal) : Option Number :=
  let whole := l.whole.foldl Gathered.add ⟨0, 0, 0⟩
  match l.fraction, l.exponent with
  | none, none =>
    if 0 < whole.left then
      (Binary64.ofDecimal l.negative whole.significand whole.left).map .double
    else if ! l.negative then some (.whole whole.significand)
    else if 0 < whole.significand && whole.significand ≤ 0x8000000000000000 then
      some (.whole (-whole.significand))
    else (Binary64.ofDecimal true whole.significand 0).map .double
  | fraction, exponent =>
    let all := (fraction.getD []).foldl Gathered.add ⟨whole.significand, 0, 0⟩
    let power : Int :=
      match exponent with
      | none => 0
      | some (negative, ds) => if negative then -(ofDigits ds) else ofDigits ds
    (Binary64.ofDecimal l.negative all.significand (whole.left - all.taken + power)).map .double

/-- How deeply containers may be nested. -/
def greatestDepth : Nat := 127

/-- The rest of a text after the given word. -/
def readWord : List Char → Glyphs → Option Glyphs
  | [], gs => some gs
  | c :: cs, some g :: gs => if c = g then readWord cs gs else none
  | _ :: _, _ => none

/-- A container at a place where `room` more levels are allowed. -/
def container (room : Nat) (r : Raw) : Raw :=
  match room with
  | 0 => .unreadable
  | _ + 1 => r

/-- The tree of a number literal. -/
def numberOf (l : Literal) : Raw :=
  match l.number? with
  | some n => .number n
  | none => .unreadable

mutual

/-- A value and the text after it. -/
def readValue : Nat → Nat → Glyphs → Option (Raw × Glyphs)
  | 0, _, _ => none
  | fuel + 1, room, gs =>
    match skipSpace gs with
    | some '{' :: gs =>
      match skipSpace gs with
      | some '}' :: gs => some (container room (.object []), gs)
      | gs => readMembers fuel room [] gs
    | some '[' :: gs =>
      match skipSpace gs with
      | some ']' :: gs => some (container room (.array []), gs)
      | gs => readItems fuel room [] gs
    | some '"' :: gs =>
      (readString [] gs).map fun (parts, gs) => ((text? parts).elim .unreadable .string, gs)
    | some 't' :: gs => (readWord ['r', 'u', 'e'] gs).map fun gs => (.bool true, gs)
    | some 'f' :: gs => (readWord ['a', 'l', 's', 'e'] gs).map fun gs => (.bool false, gs)
    | some 'n' :: gs => (readWord ['u', 'l', 'l'] gs).map fun gs => (.null, gs)
    | some '-' :: gs => (readLiteral true gs).map fun (l, gs) => (numberOf l, gs)
    | gs => (readLiteral false gs).map fun (l, gs) => (numberOf l, gs)

/-- The items of an array from the next one on. -/
def readItems : Nat → Nat → List Raw → Glyphs → Option (Raw × Glyphs)
  | 0, _, _, _ => none
  | fuel + 1, room, done, gs =>
    match readValue fuel (room - 1) gs with
    | none => none
    | some (x, gs) =>
      match skipSpace gs with
      | some ',' :: gs => readItems fuel room (x :: done) gs
      | some ']' :: gs => some (container room (.array (x :: done).reverse), gs)
      | _ => none

/-- The members of an object from the next one on. -/
def readMembers : Nat → Nat → List (Option String × Raw) → Glyphs → Option (Raw × Glyphs)
  | 0, _, _, _ => none
  | fuel + 1, room, done, gs =>
    match skipSpace gs with
    | some '"' :: gs =>
      match readString [] gs with
      | none => none
      | some (key, gs) =>
        match skipSpace gs with
        | some ':' :: gs =>
          match readValue fuel (room - 1) gs with
          | none => none
          | some (x, gs) =>
            match skipSpace gs with
            | some ',' :: gs => readMembers fuel room ((text? key, x) :: done) gs
            | some '}' :: gs =>
              some (container room (.object ((text? key, x) :: done).reverse), gs)
            | _ => none
        | _ => none
    | _ => none

end

/-- The tree of a text that holds one value and nothing after it. -/
def readGlyphs (gs : Glyphs) : Option Raw :=
  match readValue (gs.length + 1) greatestDepth gs with
  | some (r, rest) => if (skipSpace rest).isEmpty then some r else none
  | none => none

/-- The tree of a JSON text given as bytes. -/
def Raw.ofBytes? (bytes : Bytes) : Option Raw :=
  readGlyphs (Utf8.chars bytes)

/-- The tree of a JSON text. -/
def Raw.ofText? (s : String) : Option Raw :=
  readGlyphs (s.toList.map some)

/-- The value of a JSON text. -/
def parse? (s : String) : Option Json :=
  (Raw.ofText? s).bind Raw.value?

end RuleBuild.Json
