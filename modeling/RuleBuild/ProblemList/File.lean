import RuleBuild.ProblemList
import RuleBuild.Json.Printer
import RuleBuild.Json.Reader

/-!
Problem lists as files. A file names its format; a file of another format says nothing. Artifacts
without markers are not written.
-/
namespace RuleBuild

namespace Marker

/-- A marker as a JSON value. -/
def toJson (m : Marker) : Json :=
  .object [("category", .string m.category), ("message", .string m.message),
    ("severity", .string m.severity.name), ("line", Line.toJson m.line)]

/-- A marker read from data. -/
def read? {α : Type} [Datum α] (x : α) : Option Marker := do
  match ← (← Datum.body? x).fields? ["category", "message", "severity", "line"] with
  | [category, message, severity, line] =>
    return {
      category := ← Datum.required Datum.text? category
      message := ← Datum.required Datum.text? message
      severity := ← Datum.defaulted Severity.read? .error severity
      line := ← Line.readField? line }
  | _ => none

end Marker

namespace ProblemList

/-- The number of the format that is read and written. -/
def formatVersion : Nat := 1

/-- The markers that a file holds. -/
def markersJson (l : ProblemList) : Json :=
  .object ((l.markers.toList.filter fun e => ! e.2.isEmpty).map fun e =>
    (e.1, .array (e.2.map Marker.toJson)))

/-- The content of a file. -/
def toJson (l : ProblemList) : Json :=
  .object [("version", .ofNat formatVersion), ("markers", l.markersJson)]

/-- A format number, which has 32 bits. -/
def readVersion? {α : Type} [Datum α] (x : α) : Option Nat := do
  let i ← Datum.whole? x
  if 0 ≤ i ∧ i < UInt32.size then return i.toNat else none

/-- The markers of all artifacts; of an artifact named twice the last. -/
def readMarkers? {α : Type} [Datum α] (x : α) : Option (Std.ExtTreeMap String (List Marker)) := do
  match ← Datum.body? x with
  | .keyed members =>
    let lists ← members.mapM fun m => (Datum.list? Marker.read? m.2).map (m.1, ·)
    return lists.foldl (fun markers e => markers.insert e.1 e.2) ∅
  | _ => none

/-- The format and the markers of a file. -/
def readFile? {α : Type} [Datum α] (x : α) :
    Option (Nat × Std.ExtTreeMap String (List Marker)) := do
  match ← (← Datum.body? x).fields? ["version", "markers"] with
  | [version, markers] =>
    return (← Datum.required readVersion? version, ← Datum.defaulted readMarkers? ∅ markers)
  | _ => none

/-- The list in a file's bytes, none if they describe no list. -/
def ofBytes? (category : String) (bytes : Bytes) : Option ProblemList := do
  let (version, markers) ← readFile? (← Json.Raw.ofBytes? bytes)
  return if version = formatVersion then ⟨category, markers⟩ else empty category

/-- The bytes of the file that holds a list. -/
def toBytes (l : ProblemList) : Bytes := bytesOf l.toJson.pretty

/-- The list in a file. Where there is no file, nothing has been recorded. -/
def load (fs : FileSystem) (path : Path) (category : String) : Except StoreError ProblemList :=
  if fs.hasPath path then
    match fs.read path with
    | .error e => .error (.file e)
    | .ok bytes =>
      match ofBytes? category bytes with
      | some l => .ok l
      | none => .error .malformed
  else .ok (empty category)

/-- Writes a list to a file, in directories that are made where they are missing. -/
def save (l : ProblemList) (fs : FileSystem) (path : Path) :
    Except StoreError Unit × FileSystem :=
  match path.parent?.elim (.ok (), fs) fs.createDirectory with
  | (.error e, fs) => (.error (.file e), fs)
  | (.ok _, fs) =>
    match fs.write path l.toBytes with
    | .error e => (.error (.file e), fs)
    | .ok fs => (.ok (), fs)

end ProblemList
end RuleBuild
