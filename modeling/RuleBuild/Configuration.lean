import RuleBuild.Command
import RuleBuild.Runtimes
import RuleBuild.Text.Blank

/-!
What a project says of itself: how its rules are compiled and where the problems are kept. All of it
may be left out.
-/
namespace RuleBuild

/-- What a project says of itself. -/
structure Configuration where
  output : Option String
  outputDir : Option String
  store : Option String
  category : Option String
  runtime : Option String
  buildAll : Option Bool
  compiler : Option Command
  converter : Option Command
  runtimes : List Runtime
  deriving Repr, DecidableEq

/-- What is wrong with a configuration that can be read. -/
inductive ConfigurationFault
  | unknownOutput (output : String)
  | emptyCommand (part : String)
  | repeatedRuntime (name : String)
  deriving Repr, DecidableEq

/-- The wording of a fault. -/
def ConfigurationFault.message : ConfigurationFault → String
  | .unknownOutput output => "output must be human or json, got '" ++ output ++ "'"
  | .emptyCommand part => "[" ++ part ++ "].command is empty"
  | .repeatedRuntime name => "runtime '" ++ name ++ "' is configured twice"

namespace Configuration

/-- A configuration that says nothing. -/
def empty : Configuration :=
  { output := none, outputDir := none, store := none, category := none, runtime := none
    buildAll := none, compiler := none, converter := none, runtimes := [] }

/-- Whether everything is built even when only some paths have changed. A list has to say it. -/
def readBuild? {α : Type} [Datum α] (x : α) : Option (Option Bool) := do
  let body ← Datum.body? x
  match ← body.fields? ["all"] with
  | [all] => if body.reaches 1 then Datum.optional Datum.truth? all else none
  | _ => none

/-- The names of the parts of a configuration. -/
def partNames : List String :=
  ["output", "output_dir", "store", "category", "runtime", "build", "compiler", "converter",
    "runtimes"]

/-- A configuration read from data. -/
def read? {α : Type} [Datum α] (x : α) : Option Configuration := do
  match ← (← Datum.body? x).fields? partNames with
  | [output, outputDir, store, category, runtime, build, compiler, converter, runtimes] =>
    return {
      output := ← Datum.optional Datum.text? output
      outputDir := ← Datum.optional Datum.text? outputDir
      store := ← Datum.optional Datum.text? store
      category := ← Datum.optional Datum.text? category
      runtime := ← Datum.optional Datum.text? runtime
      buildAll := (← Datum.optional readBuild? build).join
      compiler := ← Datum.optional Command.read? compiler
      converter := ← Datum.optional Command.read? converter
      runtimes := ← Datum.defaulted (Datum.list? Runtime.read?) [] runtimes }
  | _ => none

/-- The output formats. -/
def outputs : List String := ["human", "json"]

/-- The fault of an output format that is unknown. -/
def outputFault? (c : Configuration) : Option ConfigurationFault :=
  c.output.bind fun output => if output ∈ outputs then none else some (.unknownOutput output)

/-- The fault of a command that names no program. -/
def commandFault? (part : String) (command : Option Command) : Option ConfigurationFault :=
  command.bind fun c => if Text.isBlankText c.program then some (.emptyCommand part) else none

/-- The first name that stands among those before it, which come after `seen`. -/
def repeated? (seen : List String) : List String → Option String
  | [] => none
  | name :: names => if name ∈ seen then some name else repeated? (name :: seen) names

/-- The fault of a runtime whose name is taken. -/
def runtimeFault? (c : Configuration) : Option ConfigurationFault :=
  (repeated? [] (c.runtimes.map Runtime.name)).map .repeatedRuntime

/-- The first fault of a configuration. -/
def fault? (c : Configuration) : Option ConfigurationFault :=
  c.outputFault?.or <| (commandFault? "compiler" c.compiler).or <|
    (commandFault? "converter" c.converter).or c.runtimeFault?

end Configuration
end RuleBuild
