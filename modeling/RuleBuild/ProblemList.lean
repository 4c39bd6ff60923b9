import Std.Data.ExtTreeMap
import RuleBuild.Diagnostic
import RuleBuild.FileSystem

/-!
Problem lists: which problems are known of which artifact. Every problem belongs to the category of
the tool that recorded it, and a tool sees and changes only the problems of its own category, so
several tools may share one list.
-/
namespace RuleBuild

/-- A recorded problem. -/
structure Marker where
  category : String
  message : String
  severity : Severity
  line : Line
  deriving Repr, DecidableEq

/-- What a marker says, without whose it is. -/
def Marker.diagnostic (m : Marker) : Diagnostic := ⟨m.message, m.line, m.severity⟩

/-- Why a problem list refuses an operation. -/
inductive StoreError
  | file (e : FileError)
  | malformed
  | rejected (artifact : String)
  deriving Repr, DecidableEq

namespace StoreError

/-- The wording of a refusal. -/
def message : StoreError → String
  | .file e => "IO error: " ++ e.message
  | .malformed => "problem list is not valid JSON: the text does not describe a problem list"
  | .rejected artifact => "artifact '" ++ artifact ++ "' is not accepted by this problem list"

/-- The name of a refusal's kind. -/
def kindName : StoreError → String
  | .file _ => "io"
  | .malformed => "json"
  | .rejected _ => "rejected"

end StoreError

/-- Where builds record their diagnostics. Both operations may fail, and may change the store even
then. -/
class ProblemStore (S : Type) where
  /-- Forgets the problems recorded of an artifact. -/
  clear : S → String → Except StoreError Unit × S
  /-- Records a problem of an artifact. -/
  add : S → String → Diagnostic → Except StoreError Unit × S

/-- The markers of all tools by artifact, seen by the tool of one category. -/
structure ProblemList where
  category : String
  markers : Std.ExtTreeMap String (List Marker)

namespace ProblemList

/-- The category of this tool where the project names none. -/
def defaultCategory : String := "drlbuild.problem"

/-- A list without any marker. -/
def empty (category : String) : ProblemList := ⟨category, ∅⟩

/-- The markers of an artifact, of all categories. -/
def markersOf (l : ProblemList) (artifact : String) : List Marker := l.markers[artifact]?.getD []

/-- Markers of a category. -/
def own (category : String) (ms : List Marker) : List Marker := ms.filter (·.category = category)

/-- Markers of other categories, nothing if there are none. -/
def foreign? (category : String) (ms : List Marker) : Option (List Marker) :=
  match ms.filter (·.category ≠ category) with
  | [] => none
  | m :: ms => some (m :: ms)

/-- The problems of an artifact in the order recorded. -/
def problems (l : ProblemList) (artifact : String) : List Diagnostic :=
  (own l.category (l.markersOf artifact)).map Marker.diagnostic

/-- The artifacts that have problems, in the order of their names. -/
def artifacts (l : ProblemList) : List String :=
  (l.markers.toList.filter fun e => e.2.any (·.category = l.category)).map (·.1)

/-- The number of problems that are errors. -/
def errorCount (l : ProblemList) : Nat :=
  ((l.markers.toList.flatMap (·.2)).filter fun m =>
    m.category = l.category && m.severity = .error).length

/-- Forgets the problems of an artifact. -/
def clear (l : ProblemList) (artifact : String) : ProblemList :=
  { l with markers := l.markers.alter artifact fun ms => ms.bind (foreign? l.category) }

/-- Forgets the problems of all artifacts. -/
def clearAll (l : ProblemList) : ProblemList :=
  { l with markers := l.markers.filterMap fun _ ms => foreign? l.category ms }

/-- A diagnostic as a marker of a category. -/
def markerOf (category : String) (d : Diagnostic) : Marker :=
  ⟨category, d.message, d.severity, d.line⟩

/-- Records a problem after those already known. An artifact needs a name. -/
def add (l : ProblemList) (artifact : String) (d : Diagnostic) : Except StoreError ProblemList :=
  if artifact = "" then .error (.rejected artifact)
  else
    let append (ms : Option (List Marker)) := some (ms.getD [] ++ [markerOf l.category d])
    .ok { l with markers := l.markers.alter artifact append }

instance : ProblemStore ProblemList where
  clear l artifact := (.ok (), l.clear artifact)
  add l artifact d :=
    match l.add artifact d with
    | .ok l => (.ok (), l)
    | .error e => (.error e, l)

end ProblemList
end RuleBuild
