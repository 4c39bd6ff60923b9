import RuleBuild.Json.Printer
import RuleBuild.ProblemList
import RuleBuild.Report
import RuleBuild.Runtimes

/-!
What is shown of results, problem lists and runtimes: lines for a reader, with colours if wanted,
or one JSON value.
-/
namespace RuleBuild

/-- The colours and weights of a text on a terminal. -/
inductive Paint
  | red
  | green
  | cyan
  | grey
  | bold
  deriving Repr, DecidableEq

namespace Paint

/-- The control sequence of a code. -/
def sequence (code : String) : String := "\x1b[" ++ code ++ "m"

/-- The codes that begin and end a paint. -/
def codes : Paint → String × String
  | .red => ("31", "39")
  | .green => ("32", "39")
  | .cyan => ("36", "39")
  | .grey => ("90", "39")
  | .bold => ("1", "0")

/-- A painted text. -/
def apply (p : Paint) (s : String) : String :=
  sequence p.codes.1 ++ s ++ sequence p.codes.2

end Paint

/-- How something is shown. -/
inductive Style
  | json
  | plain
  | coloured
  deriving Repr, DecidableEq

namespace Style

/-- The style of an output format, where colours may be allowed. Every format but JSON is lines. -/
def of (output : String) (colours : Bool) : Style :=
  if output = "json" then .json else if colours then .coloured else .plain

/-- A text, painted if the style has colours. -/
def paint (style : Style) (paints : List Paint) (s : String) : String :=
  match style with
  | .coloured => paints.foldl (fun s p => p.apply s) s
  | _ => s

end Style

/-- Lines, each with its end. -/
def textOfLines (lines : List String) : String := String.join (lines.map (· ++ "\n"))

/-- A JSON value shown over several lines. -/
def showJson (j : Json) : String := j.pretty ++ "\n"

/-- A file and a line in it, if that is known. -/
def location (file : String) : Line → String
  | some n => file ++ ":" ++ toString n.toNat
  | none => file

/-- The line for one problem. -/
def problemLine (style : Style) (artifact : String) (d : Diagnostic) : String :=
  style.paint [.red] "✖" ++ " " ++ style.paint [.red, .bold] "⟦error⟧" ++ " "
    ++ style.paint [.bold] (location artifact d.line) ++ " " ++ d.message

namespace BuildResult

/-- The lines for one report. -/
def reportLines (style : Style) (r : ArtifactReport) : List String :=
  if r.removed then [style.paint [.grey] "removed:" ++ " " ++ r.artifact]
  else r.diagnostics.map (problemLine style r.artifact)

/-- The last line of a build. -/
def summaryText (s : Summary) : String :=
  "— Summary — errors=" ++ toString s.errors ++ " artifacts=" ++ toString s.artifacts
    ++ " removed=" ++ toString s.removed ++ if s.cancelled then " (cancelled)" else ""

/-- The lines for a result. -/
def lines (style : Style) (r : BuildResult) : List String :=
  r.artifacts.flatMap (reportLines style) ++ [style.paint [.bold] (summaryText r.summary)]

/-- A result as it is shown. -/
def render (r : BuildResult) (style : Style) : String :=
  match style with
  | .json => showJson r.toJson
  | style => textOfLines (r.lines style)

end BuildResult

namespace ProblemList

/-- The problems of all artifacts, in the order in which they are shown. -/
def entries (l : ProblemList) : List (String × Diagnostic) :=
  l.artifacts.flatMap fun a => (l.problems a).map (a, ·)

/-- The last line of a list. -/
def summaryText (l : ProblemList) : String :=
  "— Problems — errors=" ++ toString l.errorCount ++ " artifacts=" ++ toString l.artifacts.length

/-- The lines for a list. -/
def lines (style : Style) (l : ProblemList) : List String :=
  l.entries.map (fun e => problemLine style e.1 e.2) ++ [style.paint [.bold] l.summaryText]

/-- A list as a JSON value: the problems of each artifact, and their numbers. -/
def overview (l : ProblemList) : Json :=
  .object [("category", .string l.category),
    ("problems", .array (l.artifacts.map fun a =>
      .object [("artifact", .string a),
        ("diagnostics", .array ((l.problems a).map Diagnostic.toJson))])),
    ("summary", .object [("errors", .ofNat l.errorCount),
      ("artifacts", .ofNat l.artifacts.length)])]

/-- A list as it is shown. -/
def render (l : ProblemList) (style : Style) : String :=
  match style with
  | .json => showJson l.overview
  | style => textOfLines (l.lines style)

end ProblemList

namespace Runtimes

/-- The line for one runtime; a star marks the one in effect. -/
def runtimeLine (style : Style) (effective : Option Runtime) (r : Runtime) : String :=
  let mark := if effective.any (·.name = r.name) then "*" else " "
  style.paint [.green, .bold] mark ++ " " ++ style.paint [.bold] r.name ++ " " ++ r.version
    ++ " (" ++ r.product.getD "-" ++ ") " ++ r.path.getD "-"
    ++ " jars=" ++ toString r.jars.length

/-- The lines for the configured runtimes. -/
def lines (style : Style) (list : List Runtime) (effective : Option Runtime) : List String :=
  if list.isEmpty then ["no runtimes configured"] else list.map (runtimeLine style effective)

/-- The configured runtimes as a JSON value, with the name of the one in effect. -/
def overview (list : List Runtime) (effective : Option Runtime) : Json :=
  .object [("runtimes", .array (list.map Runtime.toJson)),
    ("effective", effective.elim .null fun r => .string r.name)]

/-- The configured runtimes as they are shown. -/
def render (list : List Runtime) (effective : Option Runtime) (style : Style) : String :=
  match style with
  | .json => showJson (overview list effective)
  | style => textOfLines (lines style list effective)

end Runtimes
end RuleBuild
