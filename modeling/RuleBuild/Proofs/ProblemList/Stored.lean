import RuleBuild.ProblemList.File
import RuleBuild.Proofs.FileSystem.Write
import RuleBuild.Proofs.Json.Pretty
import RuleBuild.Proofs.ProblemList.Views
import RuleBuild.Proofs.Record

/-!
# Lists kept in files

A file gives back the list that was written to it, whichever tool reads it, except that artifacts
without markers are gone.
-/
namespace RuleBuild

namespace Json

theorem items?_raw_array (items : List Json) :
    Datum.items? (Json.array items).raw = some (items.map raw) := by
  rw [raw, raws_eq_map]
  rfl

theorem Raw.body?_object (members : List (String × Raw)) :
    Datum.body? (Raw.object (members.map fun m => (some m.1, m.2))) = some (.keyed members) := by
  have hkeys : (members.map fun m => (some m.1, m.2)).mapM
      (fun m => m.1.map (·, m.2)) = some members := by
    rw [List.mapM_map]
    exact (mapM_eq_some fun m _ => rfl).trans (congrArg some (List.map_id members))
  simp only [Datum.body?, hkeys, Option.map_some]

theorem body?_raw_object (members : List (String × Json)) :
    Datum.body? (Json.object members).raw =
      some (.keyed (members.map fun m => (m.1, m.2.raw))) := by
  rw [raw, rawMembers_eq_map, ← Raw.body?_object, List.map_map]
  rfl

end Json

theorem Marker.read?_raw (m : Marker) : Marker.read? m.toJson.raw = some m := by
  have hseverity : Severity.read? (Json.string m.severity.name).raw = some m.severity :=
    Severity.read?_of_text rfl
  have hline : Line.readField? (some m.line.toJson.raw) = some m.line :=
    Line.readField?_of_whole rfl rfl
  rw [Marker.read?, Marker.toJson, Json.body?_raw_object, Option.bind_eq_bind, Option.bind_some,
    Body.fields?_keyed]
  · simp only [List.map_cons, List.map_nil, Option.bind_eq_bind, Option.bind_some, Datum.required,
      Datum.defaulted, hseverity, hline]
    rfl
  · rfl
  · decide

namespace ProblemList

/-! ## The content of a file -/

/-- The list without the artifacts that have no markers, as the tool of a category sees it. -/
def kept (l : ProblemList) (category : String) : ProblemList :=
  ⟨category, l.markers.filter fun _ ms => ! ms.isEmpty⟩

theorem markersJson_eq (l : ProblemList) (category : String) :
    l.markersJson =
      .object ((l.kept category).markers.toList.map fun e =>
        (e.1, .array (e.2.map Marker.toJson))) := by
  rw [markersJson, kept, Std.ExtTreeMap.toList_filter]

theorem foldl_insert_toList (markers : Std.ExtTreeMap String (List Marker)) :
    markers.toList.foldl (fun markers e => markers.insert e.1 e.2) ∅ = markers := by
  rw [← Std.ExtTreeMap.ofList_eq_foldl]
  apply Std.ExtTreeMap.ext_getElem?
  intro a
  cases hentry : markers[a]? with
  | some ms =>
      exact Std.ExtTreeMap.getElem?_ofList_of_mem Std.ReflCmp.compare_self
        markers.distinct_keys_toList (Std.ExtTreeMap.mem_toList_iff_getElem?_eq_some.mpr hentry)
  | none =>
      apply Std.ExtTreeMap.getElem?_ofList_of_contains_eq_false
      rw [Std.ExtTreeMap.map_fst_toList_eq_keys, Std.ExtTreeMap.contains_keys]
      rw [Std.ExtTreeMap.contains_eq_isSome_getElem?, hentry]
      rfl

theorem readMarkers?_raw (l : ProblemList) (category : String) :
    readMarkers? l.markersJson.raw = some (l.kept category).markers := by
  have hlist (ms : List Marker) :
      Datum.list? Marker.read? (Json.array (ms.map Marker.toJson)).raw = some ms := by
    rw [Datum.list?, Json.items?_raw_array, Option.bind_eq_bind, Option.bind_some, List.map_map,
      List.mapM_map]
    exact (mapM_eq_some fun m _ => m.read?_raw).trans (congrArg some (List.map_id ms))
  have hmembers (es : List (String × List Marker)) :
      (es.map fun e => (e.1, (Json.array (e.2.map Marker.toJson)).raw)).mapM
        (fun m => (Datum.list? Marker.read? m.2).map (m.1, ·)) = some es := by
    rw [List.mapM_map]
    refine (mapM_eq_some fun e _ => ?_).trans (congrArg some (List.map_id es))
    simp only [Function.comp_apply, hlist, Option.map_some, id]
  rw [readMarkers?, l.markersJson_eq category, Json.body?_raw_object, Option.bind_eq_bind,
    Option.bind_some, List.map_map]
  simp only [Function.comp_def, hmembers, Option.bind_eq_bind, Option.bind_some,
    foldl_insert_toList]
  rfl

theorem readFile?_raw (l : ProblemList) (category : String) :
    readFile? l.toJson.raw = some (formatVersion, (l.kept category).markers) := by
  have hversion : readVersion? (Json.ofNat formatVersion).raw = some formatVersion := rfl
  rw [readFile?, toJson, Json.body?_raw_object, Option.bind_eq_bind, Option.bind_some,
    Body.fields?_keyed]
  · simp only [List.map_cons, List.map_nil, Option.bind_eq_bind, Option.bind_some, Datum.required,
      Datum.defaulted, hversion, l.readMarkers?_raw category]
    rfl
  · rfl
  · decide

theorem plain_toJson (l : ProblemList) : Json.Plain Json.greatestDepth l.toJson := by
  have hline (m : Marker) : Json.Fits m.line.toInt := by
    obtain ⟨hlow, hhigh⟩ := m.line.toInt_range
    constructor
    · omega
    · omega
  have hmarker (m : Marker) : Json.Plain 124 m.toJson := by
    refine .object fun member hmember => ?_
    simp only [List.mem_cons, List.not_mem_nil, or_false] at hmember
    rcases hmember with rfl | rfl | rfl | rfl
    · exact .string
    · exact .string
    · exact .string
    · exact .number (hline m)
  have hmarkers : Json.Plain 126 l.markersJson := by
    refine .object fun member hmember => ?_
    obtain ⟨e, _, rfl⟩ := List.mem_map.mp hmember
    refine .array fun x hx => ?_
    obtain ⟨m, _, rfl⟩ := List.mem_map.mp hx
    exact hmarker m
  refine .object fun member hmember => ?_
  simp only [List.mem_cons, List.not_mem_nil, or_false] at hmember
  rcases hmember with rfl | rfl
  · exact .number ⟨by decide, by decide⟩
  · exact hmarkers

/-- What is written is read back, for whichever tool. -/
theorem ofBytes?_toBytes (l : ProblemList) (category : String) :
    ofBytes? category l.toBytes = some (l.kept category) := by
  rw [ofBytes?, toBytes, Json.ofBytes?_pretty l.plain_toJson, Option.bind_eq_bind,
    Option.bind_some, l.readFile?_raw category]
  rfl

theorem markersOf_kept (l : ProblemList) (category artifact : String) :
    (l.kept category).markersOf artifact = l.markersOf artifact := by
  rw [markersOf, kept, Std.ExtTreeMap.getElem?_filter', markersOf]
  cases hentry : l.markers[artifact]? with
  | none => rfl
  | some ms =>
      cases ms with
      | nil => rfl
      | cons m ms => rfl

theorem mem_kept_iff (l : ProblemList) (category artifact : String) :
    artifact ∈ (l.kept category).markers ↔ l.markersOf artifact ≠ [] := by
  rw [Std.ExtTreeMap.mem_iff_isSome_getElem?, kept, Std.ExtTreeMap.getElem?_filter', markersOf]
  cases hentry : l.markers[artifact]? with
  | none => simp
  | some ms =>
      cases ms with
      | nil => simp [Option.filter]
      | cons m ms => simp [Option.filter]

/-- Nothing changes in the text of a list that is read back. -/
theorem toBytes_kept (l : ProblemList) (category : String) :
    (l.kept category).toBytes = l.toBytes := by
  have htwice : ((l.kept category).kept category).markers = (l.kept category).markers := by
    apply Std.ExtTreeMap.toList_inj.mp
    simp [kept, Std.ExtTreeMap.toList_filter]
  have hmarkers : (l.kept category).markersJson = l.markersJson := by
    rw [markersJson_eq _ category, htwice, ← markersJson_eq]
  rw [toBytes, toJson, hmarkers, ← toJson, ← toBytes]

/-! ## Loading and saving -/

theorem save_eq (l : ProblemList) (fs : FileSystem) (path : Path) :
    l.save fs path =
      match fs.createParent path with
      | (.error e, mid) => (.error (.file e), mid)
      | (.ok _, mid) =>
        match mid.write path l.toBytes with
        | .error e => (.error (.file e), mid)
        | .ok fs => (.ok (), fs) := rfl

theorem save_eq_ok_iff {l : ProblemList} {fs fs' : FileSystem} {path : Path} :
    l.save fs path = (.ok (), fs') ↔
      ∃ mid, fs.createParent path = (.ok (), mid) ∧ mid.write path l.toBytes = .ok fs' := by
  rw [save_eq]
  constructor
  · intro h
    split at h
    · cases h
    · rename_i mid hmid
      split at h
      · cases h
      · rename_i hwrite
        cases h
        exact ⟨mid, hmid, hwrite⟩
  · rintro ⟨mid, hmid, hwrite⟩
    simp only [hmid, hwrite]

/-- A list that cannot be saved leaves nothing behind but directories for its file. -/
theorem paves_of_save {l : ProblemList} {fs fs' : FileSystem} {path : Path} {e : StoreError}
    (h : l.save fs path = (.error e, fs')) : fs.Paves fs' path := by
  have hpaves := fs.paves_createParent path
  rw [save_eq] at h
  split at h
  · rename_i hmid
    rw [hmid] at hpaves
    cases h
    exact hpaves
  · rename_i hmid
    rw [hmid] at hpaves
    split at h
    · cases h
      exact hpaves
    · cases h

theorem hasPath_of_read {fs : FileSystem} {path : Path} {bytes : Bytes}
    (h : fs.read path = .ok bytes) : fs.hasPath path = true := by
  obtain ⟨place, hlocate, _⟩ := FileSystem.read_eq_ok_iff.mp h
  rw [FileSystem.hasPath, hlocate]
  rfl

/-- What is loaded from a file that is there. -/
theorem load_eq_elim {fs : FileSystem} {path : Path} {bytes : Bytes}
    (h : fs.read path = .ok bytes) (category : String) :
    load fs path category = (ofBytes? category bytes).elim (.error .malformed) .ok := by
  rw [load, if_pos (hasPath_of_read h), h]
  dsimp only
  cases ofBytes? category bytes with
  | none => rfl
  | some l => rfl

theorem load_of_read {fs : FileSystem} {path : Path} {l : ProblemList}
    (h : fs.read path = .ok l.toBytes) (category : String) :
    load fs path category = .ok (l.kept category) := by
  rw [load_eq_elim h, ofBytes?_toBytes, Option.elim_some]

theorem read_of_save {l : ProblemList} {fs fs' : FileSystem} {path : Path}
    (h : l.save fs path = (.ok (), fs')) : fs'.read path = .ok l.toBytes := by
  obtain ⟨_, _, hwrite⟩ := save_eq_ok_iff.mp h
  exact FileSystem.read_of_write hwrite

theorem allows_of_save {l : ProblemList} {fs fs' : FileSystem} {path : Path}
    (h : l.save fs path = (.ok (), fs')) : fs'.Allows path := by
  obtain ⟨_, _, hwrite⟩ := save_eq_ok_iff.mp h
  exact FileSystem.allows_of_write hwrite

theorem load_of_save {l : ProblemList} {fs fs' : FileSystem} {path : Path}
    (h : l.save fs path = (.ok (), fs')) (category : String) :
    load fs' path category = .ok (l.kept category) :=
  load_of_read (read_of_save h) category

theorem grows_of_save {l : ProblemList} {fs fs' : FileSystem} {path : Path}
    (h : l.save fs path = (.ok (), fs')) : fs.Grows fs' := by
  obtain ⟨mid, hmid, hwrite⟩ := save_eq_ok_iff.mp h
  have hpaves := fs.paves_createParent path
  rw [hmid] at hpaves
  exact hpaves.widens.grows.trans (FileSystem.grows_of_write hwrite)

/-- Saving changes the file at the end of its path, and makes directories on the way that are not
there yet. -/
theorem changed_of_save {l : ProblemList} {fs fs' : FileSystem} {path : Path}
    (h : l.save fs path = (.ok (), fs')) {place : Location} (hne : fs'.at? place ≠ fs.at? place) :
    ∃ before name after, path.pieces = before ++ name :: after ∧ place.getLast? = some name ∧
      (after = [] ∨ fs.hasPath ⟨before ++ [name]⟩ = false) := by
  obtain ⟨mid, hmid, hwrite⟩ := save_eq_ok_iff.mp h
  have hpaves := fs.paves_createParent path
  rw [hmid] at hpaves
  by_cases hsame : mid.at? place = fs.at? place
  · obtain ⟨before, name, hpieces, hname⟩ := FileSystem.changed_of_write hwrite (hsame ▸ hne)
    exact ⟨before, name, [], hpieces, hname, .inl rfl⟩
  · obtain ⟨before, name, after, hpieces, hname, hpath⟩ := hpaves.along place hsame
    exact ⟨before, name, after, hpieces, hname, .inr hpath⟩

theorem save_of_read {fs : FileSystem} {path : Path} {old : Bytes} (h : fs.read path = .ok old)
    (hallows : fs.Allows path) (l : ProblemList) : ∃ fs', l.save fs path = (.ok (), fs') := by
  obtain ⟨hparent, fs', hwrite⟩ := FileSystem.write_of_read h hallows l.toBytes
  exact ⟨fs', save_eq_ok_iff.mpr ⟨fs, hparent, hwrite⟩⟩

theorem save_congr {l l' : ProblemList} (h : l.toBytes = l'.toBytes) (fs : FileSystem)
    (path : Path) : l.save fs path = l'.save fs path := by
  rw [save, save, h]

/-- A list that is saved and loaded again has lost nothing, whichever tool loads it, and saving it
once more leaves every byte as it is. -/
theorem save_load_lossless (l : ProblemList) {fs fs' : FileSystem} {path : Path}
    (h : l.save fs path = (.ok (), fs')) (category : String) :
    ∃ l', load fs' path category = .ok l' ∧ l'.category = category ∧
      (∀ artifact, l'.markersOf artifact = l.markersOf artifact) ∧
      (∀ artifact, artifact ∈ l'.markers ↔ l.markersOf artifact ≠ []) ∧
      fs'.read path = .ok l'.toBytes ∧ l'.save fs' path = (.ok (), fs') ∧
      ∀ other place, l'.save other place = l.save other place := by
  have hread := read_of_save h
  have hallows := allows_of_save h
  have hbytes := l.toBytes_kept category
  refine ⟨l.kept category, load_of_save h category, rfl, l.markersOf_kept category,
    l.mem_kept_iff category, ?_, ?_, save_congr hbytes⟩
  · rw [hbytes, hread]
  · rw [save_congr hbytes, save_eq_ok_iff]
    obtain ⟨hparent, _⟩ := FileSystem.write_of_read hread hallows l.toBytes
    exact ⟨fs', hparent, FileSystem.write_of_read_self hread hallows⟩

def sampleFile : Path := ⟨["problems.json"]⟩

/-- Two tools with the same artifact, of which one uses characters that have to be escaped. -/
def sampleShared : ProblemList :=
  let first := (empty "drlbuild.problem").push "a \"b\".drl" (.error "läuft\n\\ nicht" none)
  { first with category := "other\t" }.push "a \"b\".drl" (.error "" (some 7))

theorem sampleShared_lossless :
    sampleShared.save .empty sampleFile = (.ok (), (sampleShared.save .empty sampleFile).2) ∧
      ∃ l', load (sampleShared.save .empty sampleFile).2 sampleFile "third" = .ok l' ∧
        ∀ artifact, l'.markersOf artifact = sampleShared.markersOf artifact := by
  have hsave : sampleShared.save .empty sampleFile =
      (.ok (), (sampleShared.save .empty sampleFile).2) := rfl
  obtain ⟨l', hload, _, hmarkers, _⟩ := save_load_lossless sampleShared hsave "third"
  exact ⟨hsave, l', hload, hmarkers⟩

end ProblemList
end RuleBuild
