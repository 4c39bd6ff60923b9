import RuleBuild.Json.Reader
import RuleBuild.Command
import RuleBuild.Outcome
import RuleBuild.Text.Blank
import RuleBuild.Text.Digit
import RuleBuild.Text.Split

/-!
What a compiler that runs as a program has to say. Its output is an outcome; where it is none, a
program that complains may have written a parser message `[ERR n] Line l:c` among its errors.
-/
namespace RuleBuild

namespace ParserMessage

/-- The rest of a text after one it begins with. -/
def after? : List Char → List Char → Option (List Char)
  | [], cs => some cs
  | p :: ps, c :: cs => if p = c then after? ps cs else none
  | _ :: _, [] => none

/-- Digits at the front of a text, at least one, and the rest. -/
def digits? (cs : List Char) : Option (List Char × List Char) :=
  match cs.takeWhile Text.isDigit with
  | [] => none
  | ds => some (ds, cs.dropWhile Text.isDigit)

/-- The line number of a message that begins at the front of a text. -/
def lineAtFront? (cs : List Char) : Option (List Char) := do
  let cs ← after? "[ERR ".toList cs
  let (_, cs) ← digits? cs
  let cs ← after? "] Line ".toList cs
  let (line, cs) ← digits? cs
  let cs ← after? [':'] cs
  let _ ← digits? cs
  return line

/-- The line number of the first message in a text. -/
def line? : List Char → Option (List Char)
  | [] => none
  | c :: cs =>
    match lineAtFront? (c :: cs) with
    | some line => some line
    | none => line? cs

/-- The outcome of a line that holds a parser message whose line number is one. -/
def ofLine? (cs : List Char) : Option Outcome := do
  let n ← (line? cs).bind Text.number?
  if n < UInt32.size then
    return .parseFailure (String.ofList (Text.trimChars cs)) (some (UInt32.ofNat n))
  else none

/-- The outcome of the first such line of a text. -/
def find? (errors : String) : Option Outcome :=
  (Text.lines errors.toList).findSome? ofLine?

end ParserMessage

/-- The kind of failure of a compiler that ends well without an outcome. -/
def invalidOutput : Outcome :=
  .unexpectedFailure "invalid-output"
    (some "compiler output is not a valid outcome: the text does not describe an outcome")

/-- The outcome of a compiler that has ended. -/
def Finished.outcome (f : Finished) : Outcome :=
  match Outcome.ofBytes? f.output with
  | some o => o
  | none =>
    if f.success then invalidOutput
    else
      let errors := Utf8.decodeLossy f.errors
      (ParserMessage.find? errors).getD
        (.unexpectedFailure "compiler-exit" (some (Text.trim errors)))

end RuleBuild
