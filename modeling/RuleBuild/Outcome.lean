import RuleBuild.Diagnostic
import RuleBuild.Json.Reader

/-!
What a rule compiler says about one artifact: that the text could not be parsed, a list of errors
found afterwards, or that something else went wrong. Errors of an unknown kind are kept as the
records they came in, so a newer compiler never makes an outcome unreadable.
-/
namespace RuleBuild

/-- A problem embedded in an error about a rule or a function. -/
structure Problem where
  message : String
  line : Line
  deriving Repr, DecidableEq

/-- An error that the compiler reports after parsing. -/
inductive BuilderError
  | global (name : String) (message : Option String)
  | rule (name message : String) (line : Line) (problems : Option (List Problem))
  | parser (message : String) (row : Line)
  | function (name message : String) (problems : Option (List Problem))
  | fieldTemplate (message : String) (line : Line)
  | factTemplate (message : String) (line : Line)
  | unknown (tag : String) (detail : Json)
  deriving Repr

/-- The compiler's answer for one artifact. No errors at all means that it is clean. -/
inductive Outcome
  | parseFailure (message : String) (line : Line)
  | builderErrors (errors : List BuilderError)
  | unexpectedFailure (kind : String) (message : Option String)
  deriving Repr

/-- The outcome of an artifact without errors. -/
def Outcome.clean : Outcome := .builderErrors []

namespace Problem

/-- A problem as a JSON value. -/
def toJson (p : Problem) : Json :=
  .object [("message", .string p.message), ("line", Line.toJson p.line)]

/-- A problem read from data. -/
def read? {α : Type} [Datum α] (x : α) : Option Problem := do
  match ← (← Datum.body? x).fields? ["message", "line"] with
  | [message, line] =>
    return { message := ← Datum.required Datum.text? message, line := ← Line.readField? line }
  | _ => none

end Problem

namespace BuilderError

/-- The name of an error's kind. -/
def kindName : BuilderError → String
  | .global .. => "global"
  | .rule .. => "rule"
  | .parser .. => "parser"
  | .function .. => "function"
  | .fieldTemplate .. => "field_template"
  | .factTemplate .. => "fact_template"
  | .unknown tag _ => tag

/-- The tag of errors whose record does not name a kind. -/
def untagged : String := "untagged"

/-- A text that may be missing, as a JSON value. -/
def optionalText : Option String → Json
  | some s => .string s
  | none => .null

/-- Embedded problems as a JSON value. -/
def problemsJson : Option (List Problem) → Json
  | some ps => .array (ps.map Problem.toJson)
  | none => .null

/-- An error as a record: its kind and its fields, or the record it came in. -/
def toJson : BuilderError → Json
  | .global name message =>
    .object [("kind", .string "global"), ("global", .string name),
      ("message", optionalText message)]
  | .rule name message line problems =>
    .object [("kind", .string "rule"), ("rule", .string name), ("message", .string message),
      ("line", Line.toJson line), ("problems", problemsJson problems)]
  | .parser message row =>
    .object [("kind", .string "parser"), ("message", .string message), ("row", Line.toJson row)]
  | .function name message problems =>
    .object [("kind", .string "function"), ("function", .string name),
      ("message", .string message), ("problems", problemsJson problems)]
  | .fieldTemplate message line =>
    .object [("kind", .string "field_template"), ("message", .string message),
      ("line", Line.toJson line)]
  | .factTemplate message line =>
    .object [("kind", .string "fact_template"), ("message", .string message),
      ("line", Line.toJson line)]
  | .unknown _ detail => detail

/-- Embedded problems, which may be left out or null. -/
def readProblems? (field : Option Json) : Option (Option (List Problem)) :=
  Datum.optional (Datum.list? Problem.read?) field

/-- The error of a kind with the given fields. -/
def ofBody? (kind : String) (body : Body Json) : Option BuilderError := do
  match kind with
  | "global" =>
    match ← body.fields? ["global", "message"] with
    | [name, message] =>
      return .global (← Datum.required Datum.text? name) (← Datum.optional Datum.text? message)
    | _ => none
  | "rule" =>
    match ← body.fields? ["rule", "message", "line", "problems"] with
    | [name, message, line, problems] =>
      return .rule (← Datum.required Datum.text? name) (← Datum.defaulted Datum.text? "" message)
        (← Line.readField? line) (← readProblems? problems)
    | _ => none
  | "parser" =>
    match ← body.fields? ["message", "row"] with
    | [message, row] =>
      return .parser (← Datum.required Datum.text? message) (← Line.readField? row)
    | _ => none
  | "function" =>
    match ← body.fields? ["function", "message", "problems"] with
    | [name, message, problems] =>
      return .function (← Datum.required Datum.text? name)
        (← Datum.defaulted Datum.text? "" message) (← readProblems? problems)
    | _ => none
  | "field_template" =>
    match ← body.fields? ["message", "line"] with
    | [message, line] =>
      return .fieldTemplate (← Datum.required Datum.text? message) (← Line.readField? line)
    | _ => none
  | "fact_template" =>
    match ← body.fields? ["message", "line"] with
    | [message, line] =>
      return .factTemplate (← Datum.required Datum.text? message) (← Line.readField? line)
    | _ => none
  | _ => none

/-- The error of a record of a known kind. -/
def known? (v : Json) : Option BuilderError := do
  let (kind, body) ← (← Datum.body? v).tagged? "kind"
  ofBody? kind body

/-- The error of any record: one of a known kind, or the record kept under its kind. -/
def ofJson (v : Json) : BuilderError :=
  match known? v with
  | some e => e
  | none => .unknown (((v.get? "kind").bind Json.string?).getD untagged) v

end BuilderError

namespace Outcome

/-- An outcome as a record. -/
def toJson : Outcome → Json
  | .parseFailure message line =>
    .object [("outcome", .string "parse_failure"), ("message", .string message),
      ("line", Line.toJson line)]
  | .builderErrors errors =>
    .object [("outcome", .string "builder_errors"),
      ("errors", .array (errors.map BuilderError.toJson))]
  | .unexpectedFailure kind message =>
    .object [("outcome", .string "unexpected_failure"), ("kind", .string kind),
      ("message", BuilderError.optionalText message)]

/-- The list of errors of an outcome, each of any kind. -/
def readErrors? {α : Type} [JsonDatum α] (x : α) : Option (List BuilderError) :=
  Datum.list? (fun e => (JsonDatum.value? e).map BuilderError.ofJson) x

/-- The outcome of a kind with the given fields. -/
def ofBody? {α : Type} [JsonDatum α] (kind : String) (body : Body α) : Option Outcome := do
  match kind with
  | "parse_failure" =>
    match ← body.fields? ["message", "line"] with
    | [message, line] =>
      return .parseFailure (← Datum.required Datum.text? message) (← Line.readField? line)
    | _ => none
  | "builder_errors" =>
    match ← body.fields? ["errors"] with
    | [errors] => return .builderErrors (← Datum.defaulted readErrors? [] errors)
    | _ => none
  | "unexpected_failure" =>
    match ← body.fields? ["kind", "message"] with
    | [kind, message] =>
      return .unexpectedFailure (← Datum.required Datum.text? kind)
        (← Datum.optional Datum.text? message)
    | _ => none
  | _ => none

/-- An outcome read from data, all of which has to be readable. -/
def read? {α : Type} [JsonDatum α] (x : α) : Option Outcome := do
  let _ ← JsonDatum.value? x
  let (kind, body) ← (← Datum.body? x).tagged? "outcome"
  ofBody? kind body

/-- The outcome of a JSON text. -/
def ofText? (s : String) : Option Outcome := (Json.Raw.ofText? s).bind read?

/-- The outcome of a JSON text given as bytes. -/
def ofBytes? (bytes : Bytes) : Option Outcome := (Json.Raw.ofBytes? bytes).bind read?

end Outcome
end RuleBuild
