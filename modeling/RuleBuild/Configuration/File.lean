import RuleBuild.Configuration
import RuleBuild.FileSystem
import RuleBuild.Toml.Document
import RuleBuild.Yaml.Document

/-!
Configurations as files. The root of a project is the closest directory, from a start upwards, that
holds such a file or a repository.
-/
namespace RuleBuild

/-- The formats of configuration files. -/
inductive FileFormat
  | toml
  | yaml
  deriving Repr, DecidableEq

/-- How a format is called. -/
def FileFormat.name : FileFormat → String
  | .toml => "TOML"
  | .yaml => "YAML"

/-- Why there is no configuration. -/
inductive ConfigurationError
  | file (e : FileError)
  | malformed (format : FileFormat) (path : Path)
  | invalid (fault : ConfigurationFault)
  deriving Repr, DecidableEq

namespace ConfigurationError

/-- The wording of an error. -/
def message : ConfigurationError → String
  | .file e => "IO error: " ++ e.message
  | .malformed format path =>
    format.name ++ " parse error in " ++ path.toString
      ++ ": the text does not describe a configuration"
  | .invalid fault => "Invalid configuration: " ++ fault.message

/-- The name of an error's kind. -/
def kindName : ConfigurationError → String
  | .file _ => "io"
  | .malformed .toml _ => "toml"
  | .malformed .yaml _ => "yaml"
  | .invalid _ => "invalid"

end ConfigurationError

namespace Configuration

/-- The names of configuration files, the preferred one first. -/
def fileNames : List (String × FileFormat) :=
  [("drlbuild.toml", .toml), ("drlbuild.yaml", .yaml), ("drlbuild.yml", .yaml)]

/-- The configuration file in a directory. -/
def fileIn? (fs : FileSystem) (dir : Path) : Option (Path × FileFormat) :=
  (fileNames.map fun f => (dir.join (Path.ofString f.1), f.2)).find? fun f => fs.hasPath f.1

/-- Whether a directory is the root of a project. -/
def isRoot (fs : FileSystem) (dir : Path) : Bool :=
  (fileIn? fs dir).isSome || fs.hasPath (dir.join (Path.ofString ".git"))

/-- The closest root from a directory upwards. -/
def rootAbove? (fs : FileSystem) : Nat → Path → Option Path
  | 0, _ => none
  | fuel + 1, dir => if isRoot fs dir then some dir else dir.parent?.bind (rootAbove? fs fuel)

/-- The root of the project that a directory lies in; the directory itself if there is none. -/
def projectRoot (fs : FileSystem) (start : Path) : Path :=
  let start := (fs.canonical start).toOption.getD start
  (rootAbove? fs (start.pieces.length + 1) start).getD start

/-- The configuration that a text in a format describes. -/
def ofText? (format : FileFormat) (s : String) : Option Configuration :=
  match format with
  | .toml => (Toml.Value.ofText? s).bind read?
  | .yaml => (Yaml.Part.ofText? s).bind read?

/-- The configuration in a directory, if there is one. -/
def load (fs : FileSystem) (dir : Path) : Except ConfigurationError (Option Configuration) :=
  match fileIn? fs dir with
  | none => .ok none
  | some (path, format) =>
    match fs.readText path with
    | .error e => .error (.file e)
    | .ok s =>
      match ofText? format s with
      | none => .error (.malformed format path)
      | some c =>
        match c.fault? with
        | some fault => .error (.invalid fault)
        | none => .ok (some c)

end Configuration
end RuleBuild
