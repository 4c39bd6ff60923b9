import RuleBuild.Record
import RuleBuild.Reporting
import RuleBuild.FileSystem.Scan

/-!
Runtimes: the installed rule engines that a project may be built against. A name, not a version,
tells them apart. A project names one; where it names none, or an unknown one, the first runtime
flagged as the default is taken.
-/
namespace RuleBuild

/-- An installed rule engine. -/
structure Runtime where
  name : String
  version : String
  product : Option String
  path : Option String
  isDefault : Bool
  jars : List String
  deriving Repr, DecidableEq

namespace Runtime

/-- The jars as one search path. -/
def classpath (r : Runtime) : String := ":".intercalate r.jars

/-- A runtime as a JSON value. -/
def toJson (r : Runtime) : Json :=
  let text (s : Option String) := s.elim Json.null Json.string
  .object [("name", .string r.name), ("version", .string r.version), ("product", text r.product),
    ("path", text r.path), ("default", .bool r.isDefault),
    ("jars", .array (r.jars.map .string))]

/-- A runtime read from data. -/
def read? {α : Type} [Datum α] (x : α) : Option Runtime := do
  match ← (← Datum.body? x).fields? ["name", "version", "product", "path", "default", "jars"] with
  | [name, version, product, path, isDefault, jars] =>
    return {
      name := ← Datum.required Datum.text? name
      version := ← Datum.defaulted Datum.text? "" version
      product := ← Datum.optional Datum.text? product
      path := ← Datum.optional Datum.text? path
      isDefault := ← Datum.defaulted Datum.truth? false isDefault
      jars := ← Datum.defaulted (Datum.list? Datum.text?) [] jars }
  | _ => none

/-- Whether a name ends as jars do. -/
def isJarName (name : String) : Bool := ".jar".toList.isSuffixOf name.toList

/-- The jars below a path, whatever they are and wherever they lie, in order of their text. -/
def jarsBelow (fs : FileSystem) (path : Path) : List String :=
  let found := (fs.scan false path).filter fun e => e.1.getLast?.any isJarName
  (found.map (·.2.toString)).mergeSort fun a b => a ≤ b

/-- The runtime with the jars that are found below its path. -/
def recognizeJars (fs : FileSystem) (r : Runtime) : Runtime :=
  { r with jars := r.path.elim [] fun p => jarsBelow fs (Path.ofString p) }

end Runtime

/-- The configured runtimes and the one that the project names. -/
structure Runtimes where
  list : List Runtime
  project : Option String
  deriving Repr, DecidableEq

namespace Runtimes

/-- The first runtime flagged as the default. -/
def default? (rs : Runtimes) : Option Runtime := rs.list.find? (·.isDefault)

/-- The first runtime of a name. -/
def find? (rs : Runtimes) (name : String) : Option Runtime := rs.list.find? (·.name = name)

/-- The selected runtime, or the default where none is selected or the default is asked for. -/
def effective? (rs : Runtimes) (selected : Option Runtime) (useDefault : Bool) :
    Option Runtime :=
  match selected with
  | some r => if useDefault then rs.default? else some r
  | none => rs.default?

/-- The runtime that the project is built against. -/
def forProject? (rs : Runtimes) : Option Runtime :=
  rs.effective? (rs.project.bind rs.find?) false

/-- A project that names an unknown runtime is worth a warning. -/
def projectWarnings (rs : Runtimes) : List Warning :=
  match rs.project with
  | none => []
  | some name => if (rs.find? name).isNone then [.runtimeUnknown name] else []

/-- The runtime handed to the compiler: one without jars gets those below its path. -/
def forBuild? (rs : Runtimes) (fs : FileSystem) : Option Runtime :=
  rs.forProject?.map fun r =>
    if r.jars.isEmpty && r.path.isSome then r.recognizeJars fs else r

/-- Makes the runtime of a name the only default, if there is one of that name. -/
def setDefault? (rs : Runtimes) (name : String) : Option Runtimes :=
  if (rs.find? name).isNone then none
  else some { rs with list := rs.list.map fun r => { r with isDefault := r.name = name } }

/-- `list` with its first runtime of a name changed. -/
def modifyFirst (name : String) (f : Runtime → Runtime) : List Runtime → List Runtime
  | [] => []
  | r :: rs => if r.name = name then f r :: rs else r :: modifyFirst name f rs

/-- Finds the jars of the runtime of a name. -/
def recognizeJarsOf? (rs : Runtimes) (fs : FileSystem) (name : String) : Option Runtimes :=
  if (rs.find? name).isNone then none
  else some { rs with list := modifyFirst name (·.recognizeJars fs) rs.list }

end Runtimes
end RuleBuild
