import RuleBuild.Configuration.File
import RuleBuild.ProblemList

/-!
The settings that a command works with. What is asked for at the call counts before what the project
says, and that before the defaults.
-/
namespace RuleBuild

/-- The settings that a command works with. -/
structure Settings where
  root : Path
  output : String
  outputDir : Option Path
  store : Path
  category : String
  buildAll : Bool
  compiler : Option Command
  converter : Option Command
  runtime : Option String
  runtimes : List Runtime
  configured : Bool
  deriving Repr, DecidableEq

namespace Settings

/-- Where the problem list is kept below the root of a project. -/
def defaultStore : String := ".drlbuild/problems.json"

/-- The settings of the project with a root and perhaps a configuration. -/
def ofConfiguration (root : Path) (found : Option Configuration) (output : Option String)
    (buildAll : Option Bool) : Settings :=
  let c := found.getD .empty
  { root
    output := (output.or c.output).getD "human"
    outputDir := c.outputDir.map fun dir => root.join (Path.ofString dir)
    store := root.join (Path.ofString (c.store.getD defaultStore))
    category := c.category.getD ProblemList.defaultCategory
    buildAll := (buildAll.or c.buildAll).getD false
    compiler := c.compiler
    converter := c.converter
    runtime := c.runtime
    runtimes := c.runtimes
    configured := found.isSome }

/-- The settings of the project that a directory, or else the current one, lies in. -/
def resolve (fs : FileSystem) (start output : Option String) (buildAll : Option Bool) :
    Except ConfigurationError Settings := do
  let root := Configuration.projectRoot fs (Path.ofString (start.getD "."))
  return ofConfiguration root (← Configuration.load fs root) output buildAll

end Settings
end RuleBuild
