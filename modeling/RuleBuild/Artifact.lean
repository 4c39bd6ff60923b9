import RuleBuild.Path.Bytes
import RuleBuild.Record

/-!
Artifacts: the files that a build hands to the compiler. An artifact is known by its identity, the
way to it from the project root with slashes between the components. An identity is a text, also
where the names of a path are none.
-/
namespace RuleBuild

/-- What kind of file an artifact is. -/
inductive ArtifactKind
  | ruleText
  | spreadsheet
  deriving Repr, DecidableEq

namespace ArtifactKind

/-- The name of a kind. -/
def name : ArtifactKind → String
  | .ruleText => "rule-text"
  | .spreadsheet => "spreadsheet"

/-- The kind of a name. -/
def ofName? : String → Option ArtifactKind
  | "rule-text" => some .ruleText
  | "spreadsheet" => some .spreadsheet
  | _ => none

/-- The kind of files with a given extension. -/
def ofExtension? : String → Option ArtifactKind
  | "drl" => some .ruleText
  | "xls" => some .spreadsheet
  | _ => none

/-- The kind of file that a path names. -/
def ofPath? (p : Path) : Option ArtifactKind := p.extension?.bind ofExtension?

/-- A kind read from data. -/
def read? {α : Type} [Datum α] (x : α) : Option ArtifactKind := (Datum.choice? x).bind ofName?

end ArtifactKind

/-- The identity of problems that concern the project as a whole. -/
def projectId : String := "."

/-- The text of a list of components. -/
def idOfComponents (cs : List (Component String)) : String :=
  match cs with
  | [] => projectId
  | cs => String.ofList (Text.join '/' (cs.map (·.text.toList)))

/-- The identity of `p` in the project at `root`: the way to it, or the path itself where there is
no way. -/
def artifactId (root p : Path) : String :=
  idOfComponents ((Path.relativeTo? root p).getD p.components)

/-- The identity of a path of bytes: in a name that is no text, U+FFFD stands for what encodes no
character. -/
def BytePath.artifactId (root p : BytePath) : String :=
  idOfComponents
    (((relativeTo? root p).getD p.components).map (Component.map Utf8.decodeLossy))

/-- A file that the compiler is asked about. -/
structure Artifact where
  id : String
  path : Path
  kind : ArtifactKind
  deriving Repr, DecidableEq

/-- The artifact at a path, if its extension names a kind. -/
def Artifact.ofPath? (root p : Path) : Option Artifact :=
  (ArtifactKind.ofPath? p).map fun kind => ⟨artifactId root p, p, kind⟩

end RuleBuild
