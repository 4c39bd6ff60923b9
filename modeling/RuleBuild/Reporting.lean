import RuleBuild.Outcome.Diagnostics
import RuleBuild.ProblemList

/-!
Outcomes recorded in a problem store. What was known of the artifact is forgotten first; a store
that fails is warned about and never keeps the remaining diagnostics from being recorded.
-/
namespace RuleBuild

/-- Something worth telling that does not stop the work. -/
inductive Warning
  | clearFailed (artifact : String) (cause : StoreError)
  | recordFailed (artifact : String) (cause : StoreError)
  | buildFailed (root : Path)
  | runtimeUnknown (name : String)
  deriving Repr, DecidableEq

/-- The wording of a build that cannot enter its root. -/
def inaccessible (root : Path) : String :=
  "project root " ++ root.toString ++ " is not accessible"

/-- The wording of a warning. -/
def Warning.message : Warning → String
  | .clearFailed artifact cause =>
    "failed to clear problems for " ++ artifact ++ ": " ++ cause.message
  | .recordFailed artifact cause =>
    "failed to record problem for " ++ artifact ++ ": " ++ cause.message
  | .buildFailed root => "build of " ++ root.toString ++ " failed: " ++ inaccessible root
  | .runtimeUnknown name =>
    "project runtime '" ++ name ++ "' is not configured; using default"

/-- A store after some operations on it, and the warnings that they gave rise to. -/
structure Recorded (S : Type) where
  store : S
  warnings : List Warning

variable {S : Type} [ProblemStore S]

/-- The store after an operation, with a warning if it failed. -/
def Recorded.after (r : Recorded S) (warning : StoreError → Warning)
    (step : Except StoreError Unit × S) : Recorded S :=
  match step with
  | (.ok _, s) => ⟨s, r.warnings⟩
  | (.error e, s) => ⟨s, r.warnings ++ [warning e]⟩

/-- Forgets what is known of an artifact. -/
def Recorded.clear (r : Recorded S) (artifact : String) : Recorded S :=
  r.after (.clearFailed artifact) (ProblemStore.clear r.store artifact)

/-- Records one diagnostic of an artifact. -/
def Recorded.add (r : Recorded S) (artifact : String) (d : Diagnostic) : Recorded S :=
  r.after (.recordFailed artifact) (ProblemStore.add r.store artifact d)

/-- Replaces what is known of an artifact by the given diagnostics. -/
def Recorded.replace (r : Recorded S) (artifact : String) (ds : List Diagnostic) : Recorded S :=
  ds.foldl (fun r d => r.add artifact d) (r.clear artifact)

/-- Replaces what is known of an artifact by the diagnostics of an outcome. -/
def Recorded.report (r : Recorded S) (artifact : String) (o : Outcome) : Recorded S :=
  r.replace artifact o.diagnostics

end RuleBuild
