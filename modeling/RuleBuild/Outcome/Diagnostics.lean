import RuleBuild.Outcome
import RuleBuild.Json.Printer
import RuleBuild.Text.Blank

/-!
The diagnostics that an outcome amounts to, in the order in which the compiler reported them.
-/
namespace RuleBuild

/-- Embedded problems as diagnostics. Their own lines point into generated text, so all of them get
the line of the error they are embedded in. -/
def Problem.diagnosticsAt (line : Line) (ps : List Problem) : List Diagnostic :=
  ps.map fun p => .error p.message line

/-- The diagnostics of one error. -/
def BuilderError.diagnostics : BuilderError → List Diagnostic
  | .global name message =>
    match message with
    | some m => [.error (if Text.isBlankText m then name else name ++ ": " ++ m) none]
    | none => [.error name none]
  | .rule name message line problems =>
    match problems with
    | some ps => Problem.diagnosticsAt line ps
    | none => [.error (name ++ ":" ++ message) line]
  | .parser message row => [.error message row]
  | .function name message problems =>
    match problems with
    | some ps => Problem.diagnosticsAt none ps
    | none => [.error (name ++ ":" ++ message) none]
  | .fieldTemplate message line => [.error message line]
  | .factTemplate message line => [.error message line]
  | .unknown tag detail =>
    [.error ("Unknown builder error " ++ tag ++ ": " ++ detail.compact) none]

/-- The text of a failure: its message if that shows anything, else its kind. -/
def failureText (kind : String) (message : Option String) : String :=
  match message with
  | some m => if Text.isBlankText m then "Error: " ++ kind else Text.trim m
  | none => "Error: " ++ kind

/-- The diagnostics of an outcome. -/
def Outcome.diagnostics : Outcome → List Diagnostic
  | .parseFailure message line => [.error message line]
  | .builderErrors errors => errors.flatMap BuilderError.diagnostics
  | .unexpectedFailure kind message => [.error (failureText kind message) none]

/-- The kinds of the errors in an outcome. No command shows them: they are for those who take an
outcome apart. -/
def Outcome.kindNames : Outcome → List String
  | .builderErrors errors => errors.map BuilderError.kindName
  | _ => []

end RuleBuild
