import RuleBuild.Artifact
import RuleBuild.Command
import RuleBuild.Outcome

/-!
The way of one artifact to an outcome: it is read, a spreadsheet is converted to rule text, and the
text is compiled. Each step may fail, and the compiler and the converter may break down altogether;
either way there is an outcome.
-/
namespace RuleBuild

/-- Why an artifact could not be handed to the compiler, or the compiler gave no answer. -/
inductive CompilerError
  | file (e : FileError)
  | notText (e : Utf8.DecodeError)
  | notStarted (program : String) (e : FileError)
  | exited (program : String) (status : Int) (errors : String)
  | noConverter
  deriving Repr, DecidableEq

namespace CompilerError

/-- The wording of a failure. -/
def message : CompilerError → String
  | .file e => "IO error: " ++ e.message
  | .notText e => "rule text is not valid UTF-8: " ++ e.message
  | .notStarted program e => "failed to start '" ++ program ++ "': " ++ e.message
  | .exited program status errors =>
    "'" ++ program ++ "' exited with status " ++ toString status ++ ": " ++ errors
  | .noConverter => "no spreadsheet converter is configured"

/-- The name of a failure's kind. -/
def kindName : CompilerError → String
  | .file _ => "io"
  | .notText _ => "utf8"
  | .notStarted .. => "spawn"
  | .exited .. => "compiler-exit"
  | .noConverter => "no-converter"

end CompilerError

/-- What becomes of an attempt: a result, a failure, or a breakdown with or without a word. -/
inductive Attempt (α : Type)
  | done (a : α)
  | failed (e : CompilerError)
  | brokeDown (message : Option String)
  deriving Repr

/-- The attempt that an `Except` stands for. -/
def Attempt.ofExcept {α : Type} : Except CompilerError α → Attempt α
  | .ok a => .done a
  | .error e => .failed e

/-- The outcome of an attempt to compile. -/
def Attempt.outcome : Attempt Outcome → Outcome
  | .done o => o
  | .failed e => .unexpectedFailure e.kindName (some e.message)
  | .brokeDown message => .unexpectedFailure "panic" message

/-- The tools of a build. Their state `T` is whatever they remember between calls, among it whether
the build has been cancelled. What they remember may change between two paths of a build too: a
build may be cancelled from outside at any time. -/
structure Tools (T : Type) where
  compile : String → Artifact → T → Attempt Outcome × T
  convert : Option (Bytes → Artifact → T → Attempt String × T)
  cancelled : T → Bool
  meanwhile : T → T := id

namespace Tools

variable {T : Type}

/-- The rule text of an artifact. -/
def source (tools : Tools T) (fs : FileSystem) (a : Artifact) (t : T) : Attempt String × T :=
  match a.kind with
  | .ruleText =>
    match fs.read a.path with
    | .error e => (.failed (.file e), t)
    | .ok bytes =>
      match Utf8.decode bytes with
      | .error e => (.failed (.notText e), t)
      | .ok text => (.done text, t)
  | .spreadsheet =>
    match tools.convert with
    | none => (.failed .noConverter, t)
    | some convert =>
      match fs.read a.path with
      | .error e => (.failed (.file e), t)
      | .ok bytes => convert bytes a t

/-- The attempt to compile an artifact. -/
def attempt (tools : Tools T) (fs : FileSystem) (a : Artifact) (t : T) : Attempt Outcome × T :=
  match tools.source fs a t with
  | (.done text, t) => tools.compile text a t
  | (.failed e, t) => (.failed e, t)
  | (.brokeDown message, t) => (.brokeDown message, t)

/-- The outcome of an artifact, whatever happens on the way. -/
def outcome (tools : Tools T) (fs : FileSystem) (a : Artifact) (t : T) : Outcome × T :=
  let (attempt, t) := tools.attempt fs a t
  (attempt.outcome, t)

end Tools
end RuleBuild
