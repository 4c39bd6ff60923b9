import RuleBuild.Artifact
import RuleBuild.Diagnostic

/-!
What a build did: one report for each artifact it met, in the order met, and their summary.
-/
namespace RuleBuild

/-- What happened to one artifact. An artifact that is gone is reported as removed. -/
structure ArtifactReport where
  artifact : String
  kind : Option ArtifactKind
  diagnostics : List Diagnostic
  removed : Bool
  deriving Repr, DecidableEq

/-- The numbers of a build. -/
structure Summary where
  errors : Nat
  artifacts : Nat
  removed : Nat
  cancelled : Bool
  deriving Repr, DecidableEq

/-- The reports of a build and their summary. -/
structure BuildResult where
  artifacts : List ArtifactReport
  summary : Summary
  deriving Repr, DecidableEq

/-- The number of errors among diagnostics. -/
def countErrors (ds : List Diagnostic) : Nat := (ds.filter (·.severity = .error)).length

namespace BuildResult

/-- The result of a build that has met nothing. -/
def empty : BuildResult := ⟨[], ⟨0, 0, 0, false⟩⟩

/-- The result with one more report. -/
def push (r : BuildResult) (report : ArtifactReport) : BuildResult where
  artifacts := r.artifacts ++ [report]
  summary :=
    { r.summary with
      errors := r.summary.errors + countErrors report.diagnostics
      artifacts := if report.removed then r.summary.artifacts else r.summary.artifacts + 1
      removed := if report.removed then r.summary.removed + 1 else r.summary.removed }

end BuildResult

/-- A report as a JSON value. -/
def ArtifactReport.toJson (r : ArtifactReport) : Json :=
  .object [("artifact", .string r.artifact),
    ("kind", r.kind.elim .null fun k => .string k.name),
    ("diagnostics", .array (r.diagnostics.map Diagnostic.toJson)),
    ("removed", .bool r.removed)]

/-- A summary as a JSON value. -/
def Summary.toJson (s : Summary) : Json :=
  .object [("errors", .ofNat s.errors), ("artifacts", .ofNat s.artifacts),
    ("removed", .ofNat s.removed), ("cancelled", .bool s.cancelled)]

/-- A result as a JSON value. -/
def BuildResult.toJson (r : BuildResult) : Json :=
  .object [("artifacts", .array (r.artifacts.map ArtifactReport.toJson)),
    ("summary", r.summary.toJson)]

end RuleBuild
