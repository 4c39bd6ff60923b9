import RuleBuild.Record

/-!
Diagnostics: a message, the line it belongs to if that is known, and how severe it is. A line is
written as a number, and as -1 where it is unknown; any number that is no line is read as unknown.
-/
namespace RuleBuild

/-- How severe a problem is. -/
inductive Severity
  | info
  | warning
  | error
  deriving Repr, DecidableEq

/-- The name of a severity. -/
def Severity.name : Severity → String
  | .info => "info"
  | .warning => "warning"
  | .error => "error"

/-- The severity of a name. -/
def Severity.ofName? : String → Option Severity
  | "info" => some .info
  | "warning" => some .warning
  | "error" => some .error
  | _ => none

/-- The line of a problem, if it is known. -/
abbrev Line := Option UInt32

namespace Line

/-- The number written for an unknown line. -/
def unknown : Int := -1

/-- The number of a line. -/
def toInt : Line → Int
  | some n => n.toNat
  | none => unknown

/-- The line of a number; every number outside 32 bits stands for an unknown line. -/
def ofInt (i : Int) : Line :=
  if 0 ≤ i ∧ i < UInt32.size then some (UInt32.ofNat i.toNat) else none

/-- A line written as a JSON number. -/
def toJson (l : Line) : Json := .number (.whole (toInt l))

/-- A line read from a whole number of 64 bits. -/
def read? {α : Type} [Datum α] (x : α) : Option Line := do
  let i ← Datum.whole? x
  if -0x8000000000000000 ≤ i ∧ i < 0x8000000000000000 then return ofInt i else none

/-- A line that may be left out or null. -/
def readField? {α : Type} [Datum α] (field : Option α) : Option Line :=
  (Datum.optional read? field).map Option.join

end Line

/-- A problem as it is reported to the user. -/
structure Diagnostic where
  message : String
  line : Line
  severity : Severity
  deriving Repr, DecidableEq

namespace Diagnostic

/-- A diagnostic of the severity that builds report. -/
def error (message : String) (line : Line) : Diagnostic := ⟨message, line, .error⟩

/-- A diagnostic as a JSON value. -/
def toJson (d : Diagnostic) : Json :=
  .object [("message", .string d.message), ("line", Line.toJson d.line),
    ("severity", .string d.severity.name)]

end Diagnostic

/-- A severity read from data. -/
def Severity.read? {α : Type} [Datum α] (x : α) : Option Severity :=
  (Datum.choice? x).bind Severity.ofName?

/-- A diagnostic read from data. -/
def Diagnostic.read? {α : Type} [Datum α] (x : α) : Option Diagnostic := do
  match ← (← Datum.body? x).fields? ["message", "line", "severity"] with
  | [message, line, severity] =>
    return {
      message := ← Datum.required Datum.text? message
      line := ← Line.readField? line
      severity := ← Datum.defaulted Severity.read? .error severity }
  | _ => none

end RuleBuild
