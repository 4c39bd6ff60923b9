import RuleBuild.Build
import RuleBuild.CommandLine
import RuleBuild.Compiler.External
import RuleBuild.Listing
import RuleBuild.ProblemList.File
import RuleBuild.Settings

/-!
What the program does when it is asked for something: what it shows, what it says of itself, the
status it ends with, and what the files are then. A build ends with one status if there are errors
and another if it could not be done.
-/
namespace RuleBuild

/-- The circumstances of a call: who starts programs, and whether colours are allowed. -/
structure Session where
  launch : Launcher
  colours : Bool

/-- How a call ends. -/
structure Ending where
  status : Nat
  output : String
  errors : String
  fs : FileSystem

namespace Session

/-- The status of a build that has found errors. -/
def errorsFound : Nat := 1

/-- The status of a call that could not be obeyed. -/
def notObeyed : Nat := 2

/-- The style of what the program says of itself. -/
def style (s : Session) : Style := .of "human" s.colours

/-- The end of a call that has been obeyed. -/
def shown (fs : FileSystem) (output : String) : Ending := ⟨0, output, "", fs⟩

/-- The end of a call that could not be obeyed. -/
def failed (s : Session) (fs : FileSystem) (message : String) : Ending :=
  ⟨notObeyed, "", s.style.paint [.red, .bold] "error:" ++ " " ++ message ++ "\n", fs⟩

/-- What is said where a project has no configuration. -/
def note (s : Session) : String :=
  s.style.paint [.cyan, .bold] "note:" ++ " No drlbuild.toml found; using defaults.\n"

/-- Goes on with the settings of a project. -/
def withSettings (s : Session) (fs : FileSystem) (root output : Option String)
    (buildAll : Option Bool) (next : Settings → Ending) : Ending :=
  match Settings.resolve fs root output buildAll with
  | .error e => s.failed fs e.message
  | .ok settings =>
    let e := next settings
    if settings.configured then e else { e with errors := s.note ++ e.errors }

/-- Goes on with the problem list of a project. -/
def withProblems (s : Session) (fs : FileSystem) (settings : Settings)
    (next : ProblemList → Ending) : Ending :=
  match ProblemList.load fs settings.store settings.category with
  | .error e =>
    s.failed fs ("cannot read problem list " ++ settings.store.toString ++ ": " ++ e.message)
  | .ok l => next l

/-- Goes on after the problem list of a project has been written. -/
def saving (s : Session) (fs : FileSystem) (settings : Settings) (l : ProblemList)
    (next : FileSystem → Ending) : Ending :=
  match l.save fs settings.store with
  | (.error e, fs) => s.failed fs ("cannot save problem list: " ++ e.message)
  | (.ok _, fs) => next fs

/-- Goes on with the runtime of a name. -/
def withRuntime (s : Session) (fs : FileSystem) (name : String) (found : Option Runtimes)
    (next : Runtimes → Ending) : Ending :=
  match found with
  | none => s.failed fs ("unknown runtime: " ++ name)
  | some rs => next rs

/-- The style of what a project asks to be shown. -/
def styleFor (s : Session) (settings : Settings) : Style := .of settings.output s.colours

/-- The runtimes of a project. -/
def runtimesOf (settings : Settings) : Runtimes := ⟨settings.runtimes, settings.runtime⟩

/-- What a build is to visit: what has changed, if anything is named. -/
def kindOf (changed : List String) : BuildKind :=
  if changed.isEmpty then .full else .incremental (some (changed.map Path.ofString))

/-- Builds a project. -/
def buildProject (s : Session) (fs : FileSystem) (changed : List String) (settings : Settings) :
    Ending :=
  match settings.compiler with
  | none =>
    s.failed fs "No compiler is configured. Add a [compiler] section to drlbuild.toml."
  | some compiler =>
    let runtime := (runtimesOf settings).forBuild? fs
    let tools := externalTools s.launch runtime compiler settings.converter
    s.withProblems fs settings fun l =>
      let how : BuildSettings := ⟨settings.root, settings.outputDir, settings.buildAll⟩
      let pass := build how tools fs (kindOf changed) l ()
      s.saving fs settings pass.recorded.store fun fs =>
        { shown fs (pass.result.render (s.styleFor settings)) with
          status := if 0 < pass.result.summary.errors then errorsFound else 0 }

/-- Does what is asked for. -/
def obey (s : Session) (fs : FileSystem) : Request → Ending
  | .version => shown fs (programVersion ++ "\n")
  | .build root output changed all =>
    s.withSettings fs root output (if all then some true else none) (s.buildProject fs changed)
  | .problems root output =>
    s.withSettings fs root output none fun settings =>
      s.withProblems fs settings fun l => shown fs (l.render (s.styleFor settings))
  | .clean root =>
    s.withSettings fs root none none fun settings =>
      s.withProblems fs settings fun l =>
        s.saving fs settings l.clearAll fun fs => shown fs "cleaned\n"
  | .runtimes root output =>
    s.withSettings fs root output none fun settings =>
      let rs := runtimesOf settings
      shown fs (Runtimes.render rs.list rs.forProject? (s.styleFor settings))
  | .effectiveRuntime root =>
    s.withSettings fs root none none fun settings =>
      match (runtimesOf settings).forProject? with
      | some r => shown fs (r.name ++ " " ++ r.version ++ "\n")
      | none =>
        s.failed fs "No runtime is configured. Add [[runtimes]] to drlbuild.toml."
  | .setDefaultRuntime root output name =>
    s.withSettings fs root output none fun settings =>
      let rs : Runtimes := ⟨settings.runtimes, none⟩
      s.withRuntime fs name (rs.setDefault? name) fun rs =>
        shown fs (Runtimes.render rs.list rs.default? (s.styleFor settings))
  | .jars root name =>
    s.withSettings fs root none none fun settings =>
      let rs := runtimesOf settings
      s.withRuntime fs name (rs.recognizeJarsOf? fs name) fun rs =>
        shown fs (textOfLines ((rs.find? name).elim [] Runtime.jars))

/-- Does what the words after the name of the program ask for, or says why they ask for nothing. -/
def answer (s : Session) (fs : FileSystem) (words : List String) : Ending :=
  match Request.ofWords words with
  | .ok request => s.obey fs request
  | .error e => ⟨e.status, "", e.message ++ "\n", fs⟩

end Session
end RuleBuild
