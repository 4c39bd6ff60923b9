import RuleBuild.Proofs.ProblemList.Stored
import RuleBuild.Proofs.Record.Grammar

/-!
# Files of another format

The number of a file's format is looked at after the markers have been read. So a file of another
format is passed over only if its markers happen to be written as they are today; if they are not,
it is refused.
-/
namespace RuleBuild

variable {α : Type} [Datum α]

/-- A severity is its name, alone or as the only member of a record, without a value. -/
inductive Severity.WrittenAs (s : Severity) (x : α) : Prop
  | text (name : Datum.text? x = some s.name)
  | member {y : α} (text : Datum.text? x = none)
      (body : Datum.body? x = some (.keyed [(s.name, y)])) (null : Datum.absent? y = some true)

/-- A marker is a record of its category, its message, and a severity and a line that may be left
out. -/
def Marker.WrittenAs (m : Marker) (x : α) : Prop :=
  ∃ body category message severity line, Datum.body? x = some body ∧
    body.Gives ["category", "message", "severity", "line"]
      [some category, some message, severity, line] ∧
    Datum.TextAs m.category category ∧ Datum.TextAs m.message message ∧
    Datum.DefaultedAs Severity.WrittenAs .error m.severity severity ∧ m.line.WrittenAs line

theorem Severity.ofName?_eq_some_iff {name : String} {s : Severity} :
    ofName? name = some s ↔ name = s.name := by
  constructor
  · intro h
    unfold ofName? at h
    split at h <;> cases h <;> rfl
  · rintro rfl
    cases s <;> rfl

theorem Severity.read?_eq_some_iff {x : α} {s : Severity} :
    read? x = some s ↔ s.WrittenAs x := by
  rw [read?, Option.bind_eq_some_iff]
  simp only [ofName?_eq_some_iff, exists_eq_right]
  rw [Datum.choice?]
  constructor
  · intro h
    split at h
    · rename_i name htext
      cases h
      exact .text htext
    · rename_i name y htext hbody
      split at h
      · rename_i hnull
        cases h
        exact .member htext hbody hnull
      · cases h
    · cases h
  · rintro (htext | ⟨htext, hbody, hnull⟩)
    · simp [htext]
    · simp [htext, hbody, hnull]

theorem Marker.read?_eq_some_iff {x : α} {m : Marker} : read? x = some m ↔ m.WrittenAs x := by
  simp only [read?, Option.bind_eq_bind, Option.bind_eq_some_iff, Body.fields?_eq_some_iff]
  constructor
  · rintro ⟨body, hbody, fields, hfields, h⟩
    split at h
    · simp only [Option.bind_eq_some_iff, Line.readField?_eq_some_iff,
        Datum.required_eq_some_iff Datum.text?_eq_some_iff,
        Datum.defaulted_eq_some_iff Severity.read?_eq_some_iff] at h
      obtain ⟨_, ⟨x, rfl, hcategory⟩, _, ⟨y, rfl, hmessage⟩, s, hs, l, hl, heq⟩ := h
      cases heq
      exact ⟨body, x, y, _, _, hbody, hfields, hcategory, hmessage, hs, hl⟩
    · cases h
  · rintro ⟨body, category, message, severity, line, hbody, hfields, hcategory, hmessage, hseverity,
      hline⟩
    refine ⟨body, hbody, _, hfields, ?_⟩
    simp only [Datum.required, Option.bind_some, Line.readField?_eq_some_iff.mpr hline,
      (Datum.defaulted_eq_some_iff Severity.read?_eq_some_iff).mpr hseverity]
    rw [show Datum.text? category = some m.category from hcategory,
      show Datum.text? message = some m.message from hmessage]
    rfl

namespace ProblemList

/-- Whether data are written as the markers of a file: an object with a list of markers for each
artifact. -/
def WrittenAsMarkers (x : α) : Prop :=
  ∃ members, Datum.body? x = some (.keyed members) ∧
    ∀ m ∈ members, ∃ ms, Datum.ListAs Marker.WrittenAs ms m.2

theorem exists_readMarkers?_iff {x : α} :
    (∃ table, readMarkers? x = some table) ↔ WrittenAsMarkers x := by
  have hlists (members : List (String × α)) :
      (∃ lists, members.mapM (fun m => (Datum.list? Marker.read? m.2).map (m.1, ·)) = some lists) ↔
        ∀ m ∈ members, ∃ ms, Datum.ListAs Marker.WrittenAs ms m.2 := by
    rw [exists_mapM_eq_some_iff]
    simp only [Option.map_eq_some_iff, Datum.list?_eq_some_iff Marker.read?_eq_some_iff]
    grind
  simp only [readMarkers?, Option.bind_eq_bind, Option.bind_eq_some_iff]
  constructor
  · rintro ⟨table, body, hbody, h⟩
    split at h
    · rename_i members
      obtain ⟨lists, hread, _⟩ := Option.bind_eq_some_iff.mp h
      exact ⟨members, hbody, (hlists members).mp ⟨lists, hread⟩⟩
    · cases h
  · rintro ⟨members, hbody, hmembers⟩
    obtain ⟨lists, hread⟩ := (hlists members).mpr hmembers
    exact ⟨_, _, hbody, by simp only [hread]; rfl⟩

/-- Whether a text is that of an object with distinct keys, these its members, which has a number of
32 bits for its format. -/
structure IsFileOf (bytes : Bytes) (members : List (String × Json.Raw)) (version : Nat) : Prop where
  json : Json.Raw.ofBytes? bytes = some (.object (members.map fun m => (some m.1, m.2)))
  keys : (members.map (·.1)).Nodup
  format : ("version", .number (.whole version)) ∈ members
  fits : version < 0x100000000

/-- Whether what a file holds under `markers`, if anything, is written as markers are. -/
def HoldsMarkers (members : List (String × Json.Raw)) : Prop :=
  ∀ x, ("markers", x) ∈ members → WrittenAsMarkers x

theorem readFile?_of_fields {x : α} {body : Body α} {version markers : Option α}
    (hbody : Datum.body? x = some body)
    (hfields : body.fields? ["version", "markers"] = some [version, markers]) :
    readFile? x =
      (Datum.required readVersion? version).bind fun version =>
        (Datum.defaulted readMarkers? ∅ markers).map (version, ·) := by
  simp only [readFile?, hbody, hfields, Option.bind_eq_bind, Option.bind_some]
  cases Datum.required readVersion? version with
  | none => rfl
  | some version =>
      cases Datum.defaulted readMarkers? ∅ markers with
      | none => rfl
      | some table => rfl

variable {bytes : Bytes} {members : List (String × Json.Raw)} {version : Nat}

theorem readVersion?_of_lt (h : version < 0x100000000) :
    readVersion? (Json.Raw.number (.whole version)) = some version := by
  have hrange : (0 : Int) ≤ version ∧ (version : Int) < UInt32.size := by
    rw [UInt32.size]
    omega
  have hwhole : Datum.whole? (Json.Raw.number (.whole version)) = some (version : Int) := rfl
  rw [readVersion?, hwhole, Option.bind_eq_bind, Option.bind_some, if_pos hrange, Int.toNat_natCast]
  rfl

theorem exists_markers_field (h : (members.map (·.1)).Nodup) :
    ∃ field, Body.member? "markers" members = some field ∧
      ((Datum.defaulted readMarkers? ∅ field).isSome ↔ HoldsMarkers members) := by
  by_cases hmarkers : ∃ x, ("markers", x) ∈ members
  · obtain ⟨x, hx⟩ := hmarkers
    have hnamed := Body.named_of_mem h hx
    refine ⟨some x, Body.member?_eq_some_iff.mpr hnamed, ?_⟩
    rw [Datum.defaulted, Option.isSome_iff_exists, exists_readMarkers?_iff, HoldsMarkers]
    constructor
    · intro hwritten y hy
      rw [Body.named_of_mem h hy] at hnamed
      cases hnamed
      exact hwritten
    · exact fun hall => hall x hx
  · have hnamed : Body.named "markers" members = [] := by
      rw [Body.named, List.map_eq_nil_iff, List.filter_eq_nil_iff]
      intro m hm hkey
      exact hmarkers ⟨m.2, by rwa [← of_decide_eq_true hkey]⟩
    refine ⟨none, Body.member?_eq_some_iff.mpr hnamed, iff_of_true rfl fun x hx => ?_⟩
    exact absurd ⟨x, hx⟩ hmarkers

/-- A file is read exactly if what it holds under `markers` is, whatever its format. -/
theorem IsFileOf.exists_ofBytes?_eq (h : IsFileOf bytes members version) (category : String) :
    ∃ table : Option (Std.ExtTreeMap String (List Marker)),
      (table.isSome ↔ HoldsMarkers members) ∧
      ofBytes? category bytes = table.map fun table =>
        if version = formatVersion then ⟨category, table⟩ else empty category := by
  have hversion : Body.member? "version" members = some (some (.number (.whole version))) :=
    Body.member?_eq_some_iff.mpr (Body.named_of_mem h.keys h.format)
  obtain ⟨field, hfield, hmarkers⟩ := exists_markers_field h.keys
  refine ⟨Datum.defaulted readMarkers? ∅ field, hmarkers, ?_⟩
  have hfields : (Body.keyed members).fields? ["version", "markers"] =
      some [some (.number (.whole version)), field] := by
    rw [Body.fields?, List.mapM_cons, hversion, List.mapM_cons, hfield]
    rfl
  have hrequired : Datum.required readVersion? (some (Json.Raw.number (.whole version))) =
      some version := by
    rw [Datum.required, Option.bind_some, readVersion?_of_lt h.fits]
  rw [ofBytes?, h.json, Option.bind_eq_bind, Option.bind_some,
    readFile?_of_fields (Json.Raw.body?_object members) hfields, hrequired]
  cases Datum.defaulted readMarkers? ∅ field with
  | none => rfl
  | some table => rfl

theorem IsFileOf.load_cases {fs : FileSystem} {path : Path} (hread : fs.read path = .ok bytes)
    (h : IsFileOf bytes members version) (category : String) :
    (HoldsMarkers members ∧ ∃ table, load fs path category =
        .ok (if version = formatVersion then ⟨category, table⟩ else empty category)) ∨
      (¬ HoldsMarkers members ∧ load fs path category = .error .malformed) := by
  obtain ⟨table, hmarkers, hbytes⟩ := h.exists_ofBytes?_eq category
  rw [load_eq_elim hread, hbytes]
  cases table with
  | some table => exact .inl ⟨hmarkers.mp rfl, table, rfl⟩
  | none => exact .inr ⟨mt hmarkers.mpr nofun, rfl⟩

/-- A file of another format is passed over exactly if what it holds under `markers`, if anything,
is written as markers are today; if not, it is refused like a file of this format. So of the files
that are objects with distinct keys and a number for their format, those are refused whose markers
are written differently, and no others. -/
theorem other_format_discarded_iff {fs : FileSystem} {path : Path}
    (hread : fs.read path = .ok bytes) (hfile : IsFileOf bytes members version)
    (category : String) :
    (version ≠ formatVersion →
      (load fs path category = .ok (empty category) ↔ HoldsMarkers members)) ∧
    ((∃ e, load fs path category = .error e) ↔ ¬ HoldsMarkers members) := by
  rcases hfile.load_cases hread category with ⟨hholds, table, hload⟩ | ⟨hnot, hload⟩
  · rw [hload]
    exact ⟨fun hother => iff_of_true (by rw [if_neg hother]) hholds,
      iff_of_false nofun (not_not_intro hholds)⟩
  · rw [hload]
    exact ⟨fun _ => iff_of_false nofun hnot, iff_of_true ⟨_, rfl⟩ hnot⟩

theorem exists_read_sampleFile (content : Bytes) :
    ∃ fs : FileSystem, fs.read sampleFile = .ok content := by
  obtain ⟨fs, hwrite⟩ : ∃ fs, FileSystem.empty.write sampleFile content = .ok fs := ⟨_, rfl⟩
  exact ⟨fs, FileSystem.read_of_write hwrite⟩

/-- A later format, with a field of its own, whose markers are written as they are today. -/
def laterFile : Json :=
  .object [("tool", .array [.null]), ("version", .ofNat 2),
    ("markers", .object [("a.drl", .array [.array [.string "theirs", .string "m"]])])]

def laterMembers : List (String × Json.Raw) :=
  [("tool", .array [.null]), ("version", .number (.whole 2)),
    ("markers", .object [(some "a.drl", .array [.array [.string "theirs", .string "m"]])])]

theorem isFileOf_laterFile : IsFileOf (bytesOf laterFile.pretty) laterMembers 2 where
  json := Json.ofBytes?_pretty (by simp [laterFile, Json.ofNat, Json.greatestDepth, Json.Fits])
  keys := by decide
  format := by simp [laterMembers]
  fits := by decide

/-- The file of the later format is passed over. -/
theorem laterFile_discarded :
    ∃ fs : FileSystem, fs.read sampleFile = .ok (bytesOf laterFile.pretty) ∧
      IsFileOf (bytesOf laterFile.pretty) laterMembers 2 ∧ 2 ≠ formatVersion ∧
      HoldsMarkers laterMembers ∧
      load fs sampleFile defaultCategory = .ok (empty defaultCategory) := by
  obtain ⟨fs, hread⟩ := exists_read_sampleFile (bytesOf laterFile.pretty)
  have hother : 2 ≠ formatVersion := by decide
  have hmarkers : HoldsMarkers laterMembers := by
    intro x hx
    obtain rfl : x = .object [(some "a.drl", .array [.array [.string "theirs", .string "m"]])] := by
      simpa [laterMembers] using hx
    exact exists_readMarkers?_iff.mp ⟨_, rfl⟩
  exact ⟨fs, hread, isFileOf_laterFile, hother, hmarkers,
    ((other_format_discarded_iff hread isFileOf_laterFile defaultCategory).1 hother).mpr hmarkers⟩

/-- An earlier format that keeps its markers in one list. -/
def earlierFile : Json :=
  .object [("version", .ofNat 0),
    ("markers", .array [.object [("artifact", .string "a.drl"), ("message", .string "m")]])]

def earlierMembers : List (String × Json.Raw) :=
  [("version", .number (.whole 0)),
    ("markers",
      .array [.object [(some "artifact", .string "a.drl"), (some "message", .string "m")]])]

theorem isFileOf_earlierFile : IsFileOf (bytesOf earlierFile.pretty) earlierMembers 0 where
  json := Json.ofBytes?_pretty (by simp [earlierFile, Json.ofNat, Json.greatestDepth, Json.Fits])
  keys := by decide
  format := by simp [earlierMembers]
  fits := by decide

/-- A file of an earlier format is refused, since its markers are written differently. -/
theorem earlierFile_refused :
    ∃ fs : FileSystem, fs.read sampleFile = .ok (bytesOf earlierFile.pretty) ∧
      IsFileOf (bytesOf earlierFile.pretty) earlierMembers 0 ∧ 0 ≠ formatVersion ∧
      load fs sampleFile defaultCategory = .error .malformed := by
  obtain ⟨fs, hread⟩ := exists_read_sampleFile (bytesOf earlierFile.pretty)
  refine ⟨fs, hread, isFileOf_earlierFile, by decide, ?_⟩
  rcases isFileOf_earlierFile.load_cases hread defaultCategory with ⟨hholds, _⟩ | ⟨_, hload⟩
  · obtain ⟨_, hbody, _⟩ := hholds _ (List.mem_cons_of_mem _ List.mem_cons_self)
    cases hbody
  · exact hload

end ProblemList
end RuleBuild
