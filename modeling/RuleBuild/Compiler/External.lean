import RuleBuild.Compiler
import RuleBuild.Compiler.Output
import RuleBuild.Runtimes

/-!
Compilers and converters that are programs of their own. The source is their input and the path of
the artifact their last argument; a compiler is told of the runtime by its environment.
-/
namespace RuleBuild

/-- What a compiler is told of the runtime. -/
def Runtime.environment (r : Runtime) : List (String × String) :=
  [("DRLBUILD_RUNTIME_PATH", r.path.getD ""), ("DRLBUILD_RUNTIME_VERSION", r.version),
    ("DRLBUILD_RUNTIME_CLASSPATH", r.classpath)]

namespace Command

/-- The call of a command on an artifact. -/
def call (c : Command) (environment : List (String × String)) (input : Bytes) (a : Artifact) :
    Call :=
  ⟨c.program, c.args ++ [a.path.toString], environment, input⟩

/-- Runs a command on an artifact. -/
def run (c : Command) (launch : Launcher) (environment : List (String × String)) (input : Bytes)
    (a : Artifact) : Except CompilerError Finished :=
  match launch (c.call environment input a) with
  | .ok f => .ok f
  | .error e => .error (.notStarted c.program e)

/-- Compiles rule text. -/
def compile (c : Command) (launch : Launcher) (runtime : Option Runtime) (source : String)
    (a : Artifact) : Except CompilerError Outcome := do
  let environment := runtime.elim [] Runtime.environment
  return (← c.run launch environment (bytesOf source) a).outcome

/-- The status reported of a program that was killed. -/
def killedStatus : Int := -1

/-- The rule text that a converter has written. -/
def converted (c : Command) (f : Finished) : Except CompilerError String :=
  if f.success then
    match Utf8.decode f.output with
    | .ok text => .ok text
    | .error e => .error (.notText e)
  else
    .error (.exited c.program (f.status.getD killedStatus) (Text.trim (Utf8.decodeLossy f.errors)))

/-- Converts a spreadsheet to rule text. -/
def convert (c : Command) (launch : Launcher) (input : Bytes) (a : Artifact) :
    Except CompilerError String := do
  c.converted (← c.run launch [] input a)

end Command

/-- The tools of a build that are external commands. -/
def externalTools (launch : Launcher) (runtime : Option Runtime) (compiler : Command)
    (converter : Option Command) : Tools Unit where
  compile source a _ := (.ofExcept (compiler.compile launch runtime source a), ())
  convert := converter.map fun c => fun bytes a _ => (.ofExcept (c.convert launch bytes a), ())
  cancelled _ := false

end RuleBuild
