import RuleBuild.Compiler
import RuleBuild.FileSystem.Scan
import RuleBuild.Report
import RuleBuild.Reporting

/-!
Builds. A full build visits every rule text and spreadsheet below the project root, an incremental
one the changed paths; each artifact met is compiled and its diagnostics replace what was known of
it. An artifact that is gone has no problems any more. A build may be cancelled between artifacts,
and no artifact's failure keeps the others from being visited.
-/
namespace RuleBuild

/-- What a build is asked to visit: everything, or the changed paths, if they are known. -/
inductive BuildKind
  | full
  | incremental (changed : Option (List Path))
  deriving Repr, DecidableEq

/-- How a project is built. Nothing below the output directory is visited. -/
structure BuildSettings where
  root : Path
  outputDir : Option Path
  buildAll : Bool
  deriving Repr, DecidableEq

namespace BuildSettings

/-- Whether a path has a name below the root that begins with a dot. -/
def isHidden (s : BuildSettings) (p : Path) : Bool :=
  (Path.below s.root p).any Component.isDotted

/-- Whether a path lies in the output directory. An output directory that is the root excludes
nothing. -/
def isExcluded (s : BuildSettings) (p : Path) : Bool :=
  match s.outputDir with
  | none => false
  | some dir =>
    let out := Path.below s.root dir
    ! out.isEmpty && out.isPrefixOf (Path.below s.root p)

/-- The files below the root that are artifacts, in the order of their components. -/
def scan (s : BuildSettings) (fs : FileSystem) : List Path :=
  ((fs.scan true s.root).map (·.2)).filter fun p =>
    (ArtifactKind.ofPath? p).isSome && fs.isFile p && ! s.isHidden p

/-- The changed paths, seen from the root. -/
def changedPaths (s : BuildSettings) (changed : List Path) : List Path :=
  (changed.map s.root.join).filter fun p => ! s.isHidden p

/-- The paths that a build may visit, none if the root is no directory. -/
def candidates? (s : BuildSettings) (fs : FileSystem) (kind : BuildKind) : Option (List Path) :=
  if fs.isDirectory s.root then
    match kind with
    | .incremental (some changed) =>
      some (if s.buildAll then s.scan fs else s.changedPaths changed)
    | _ => some (s.scan fs)
  else none

end BuildSettings

/-- A build in progress: the store, the tools' memory, and the result so far. -/
structure Pass (S T : Type) where
  recorded : Recorded S
  tools : T
  result : BuildResult

namespace Pass

variable {S T : Type} [ProblemStore S]

/-- Records the diagnostics of an artifact and reports them. -/
def report (pass : Pass S T) (id : String) (kind : Option ArtifactKind) (removed : Bool)
    (o : Outcome) : Pass S T :=
  { pass with
    recorded := pass.recorded.report id o
    result := pass.result.push ⟨id, kind, o.diagnostics, removed⟩ }

/-- Visits a path. What is excluded or no artifact is passed over. -/
def visit (s : BuildSettings) (tools : Tools T) (fs : FileSystem) (pass : Pass S T) (p : Path) :
    Pass S T :=
  if s.isExcluded p then pass
  else
    match Artifact.ofPath? s.root p with
    | none => pass
    | some a =>
      if fs.hasPath p then
        let (o, t) := tools.outcome fs a pass.tools
        { pass with tools := t }.report a.id (some a.kind) false o
      else pass.report a.id none true .clean

/-- The pass, cut short. -/
def cancel (pass : Pass S T) : Pass S T :=
  { pass with
    result := { pass.result with summary := { pass.result.summary with cancelled := true } } }

/-- Visits paths one after the other until the build is cancelled. -/
def visitAll (s : BuildSettings) (tools : Tools T) (fs : FileSystem) (pass : Pass S T) :
    List Path → Pass S T
  | [] => pass
  | p :: ps =>
    let pass := { pass with tools := tools.meanwhile pass.tools }
    if tools.cancelled pass.tools then pass.cancel
    else (pass.visit s tools fs p).visitAll s tools fs ps

end Pass

/-- The wording of a build that did not begin. -/
def buildFailure (root : Path) : Outcome :=
  .unexpectedFailure "build" (some ("Error when trying to build project: " ++ inaccessible root))

/-- A build, from the store and the tools' memory before it. Problems of the project as a whole are
forgotten first. -/
def build {S T : Type} [ProblemStore S] (s : BuildSettings) (tools : Tools T) (fs : FileSystem)
    (kind : BuildKind) (store : S) (t : T) : Pass S T :=
  let pass : Pass S T := ⟨(Recorded.mk store []).report projectId .clean, t, .empty⟩
  match s.candidates? fs kind with
  | some ps => pass.visitAll s tools fs ps
  | none =>
    let warned := { pass.recorded with warnings := pass.recorded.warnings ++ [.buildFailed s.root] }
    { pass with recorded := warned }.report projectId none false (buildFailure s.root)

end RuleBuild
