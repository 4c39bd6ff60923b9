import Mathlib.Data.List.Find
import RuleBuild.Proofs.ProblemList.Stored
import RuleBuild.Proofs.Settings

/-!
# Projects that are found again

A search that begins where it did before and meets the same marks ends with the same root, where the
same configuration is read. Saving a problem list is no obstacle to that, unless it makes the start
or puts something where a mark is looked for.
-/
namespace RuleBuild

namespace Configuration

/-- Whether the search from a start begins at the same path in both file systems, and by the names
of marks the same is found there, all the way up. -/
structure SameSearch (fs fs' : FileSystem) (start : Path) : Prop where
  begins : searchStart fs' start = searchStart fs start
  marks : ∀ dir : Path, dir.Encloses (searchStart fs start) → ∀ name ∈ marks,
    fs'.find? (dir.join (Path.ofString name)) = fs.find? (dir.join (Path.ofString name))

theorem fileName_mem_marks {f : String × FileFormat} (h : f ∈ fileNames) : f.1 ∈ marks := by
  revert f
  decide

namespace SameSearch

variable {fs fs' : FileSystem} {start dir root : Path} (h : SameSearch fs fs' start)

include h

theorem hasPath_eq (hdir : dir.Encloses (searchStart fs start)) {name : String}
    (hname : name ∈ Configuration.marks) :
    fs'.hasPath (dir.join (Path.ofString name)) = fs.hasPath (dir.join (Path.ofString name)) := by
  rw [FileSystem.hasPath_eq_isSome_find?, FileSystem.hasPath_eq_isSome_find?,
    h.marks dir hdir name hname]

theorem isMarked_iff (hdir : dir.Encloses (searchStart fs start)) :
    IsMarked fs' dir ↔ IsMarked fs dir := by
  unfold IsMarked
  refine exists_congr fun name => and_congr_right fun hname => ?_
  rw [h.hasPath_eq hdir hname]

/-- The search takes the same way. -/
theorem search (hdir : dir.Encloses (searchStart fs start))
    (hsearch : Search fs (searchStart fs start) dir root) :
    Search fs' (searchStart fs' start) dir root := by
  induction hsearch with
  | found hmarked => exact .found ((h.isMarked_iff hdir).mpr hmarked)
  | above hno hparent _ ih =>
      exact .above (mt (h.isMarked_iff hdir).mp hno) hparent (ih (hdir.above hparent))
  | given hno hparent =>
      rw [h.begins]
      exact .given (mt (h.isMarked_iff hdir).mp hno) hparent

theorem projectRoot_eq : projectRoot fs' start = projectRoot fs start := by
  have hsearch := h.search (.refl _) (search_projectRoot fs start)
  rw [← h.begins] at hsearch
  exact (search_projectRoot fs' start).unique hsearch

theorem fileIn?_eq (hdir : dir.Encloses (searchStart fs start)) :
    fileIn? fs' dir = fileIn? fs dir := by
  refine List.find?_congr fun file hfile => ?_
  obtain ⟨f, hf, rfl⟩ := List.mem_map.mp hfile
  exact h.hasPath_eq hdir (fileName_mem_marks hf)

theorem load_eq (hdir : dir.Encloses (searchStart fs start)) :
    Configuration.load fs' dir = Configuration.load fs dir := by
  unfold Configuration.load
  rw [h.fileIn?_eq hdir]
  cases hfile : fileIn? fs dir with
  | none => rfl
  | some file =>
      obtain ⟨path, format⟩ := file
      obtain ⟨hpath, name, before, after, hnames, rfl, _⟩ := isPreferred_of_fileIn? hfile
      have hmark : name ∈ Configuration.marks :=
        fileName_mem_marks (f := (name, format)) (by simp [hnames])
      dsimp only
      rw [FileSystem.readText_congr (h.marks dir hdir name hmark) hpath]

end SameSearch

/-! ## Saving where no mark is -/

/-- Whether no piece of a path is the name of a mark, apart from those on the way that are there
already. -/
def ClearOfMarks (fs : FileSystem) (path : Path) : Prop :=
  ∀ name ∈ marks, ∀ before after, path.pieces = before ++ name :: after →
    after ≠ [] ∧ fs.hasPath ⟨before ++ [name]⟩ = true

theorem clearOfMarks_of_not_mem {fs : FileSystem} {path : Path}
    (h : ∀ name ∈ marks, name ∉ path.pieces) : ClearOfMarks fs path := by
  intro name hname before after hpieces
  exact absurd (by simp [hpieces]) (h name hname)

theorem ofString_mark {name : String} (h : name ∈ marks) :
    Path.ofString name = ⟨[name]⟩ ∧ FileSystem.isName name = true := by
  revert name
  decide +kernel

theorem at?_eq_of_save {l : ProblemList} {fs fs' : FileSystem} {path : Path}
    (h : l.save fs path = (.ok (), fs')) (hclear : ClearOfMarks fs path) {name : String}
    (hname : name ∈ marks) (dir : Location) : fs'.at? (dir ++ [name]) = fs.at? (dir ++ [name]) := by
  by_contra hne
  obtain ⟨before, last, after, hpieces, hlast, hnew⟩ := ProblemList.changed_of_save h hne
  rw [List.getLast?_concat] at hlast
  cases hlast
  obtain ⟨hafter, hpath⟩ := hclear name hname before after hpieces
  rcases hnew with hnil | hnew
  · exact hafter hnil
  · rw [hpath] at hnew
    cases hnew

/-- The search meets the same marks once a list has been saved, unless the path of the list names
one, if it begins where it did at a path without a step up. -/
theorem sameSearch_of_begins {l : ProblemList} {fs fs' : FileSystem} {path start : Path}
    (h : l.save fs path = (.ok (), fs')) (hclear : ClearOfMarks fs path)
    (hbegins : searchStart fs' start = searchStart fs start)
    (hup : .up ∉ (searchStart fs start).components) : SameSearch fs fs' start := by
  refine ⟨hbegins, fun dir hdir name hname => ?_⟩
  obtain ⟨hpath, hisName⟩ := ofString_mark hname
  have hdirUp : .up ∉ dir.components := fun hmem => hup (hdir.components_isPrefix.subset hmem)
  have horigin : fs'.origin dir = fs.origin dir := (ProblemList.grows_of_save h).origin dir
  rw [hpath, FileSystem.find?_join hdirUp hisName, FileSystem.find?_join hdirUp hisName, horigin,
    at?_eq_of_save h hclear hname]

theorem sameSearch_of_save {l : ProblemList} {fs fs' : FileSystem} {path start : Path}
    (h : l.save fs path = (.ok (), fs')) (hclear : ClearOfMarks fs path)
    (hstart : fs.hasPath start = true ∨ fs'.hasPath start = false ∧ .up ∉ start.components) :
    SameSearch fs fs' start := by
  have hgrows := ProblemList.grows_of_save h
  rcases hstart with hstart | ⟨hmissing, hup⟩
  · -- What a path leads to keeps its place, and the path to the place has no step up.
    obtain ⟨place, hlocate⟩ := FileSystem.locate_of_hasPath hstart
    have hbegins := searchStart_of_locate hlocate
    refine sameSearch_of_begins h hclear ?_ ?_
    · rw [hbegins, searchStart_of_locate (hgrows.locate hlocate)]
    · rw [hbegins, FileSystem.components_pathTo
        fun n hn => FileSystem.isName_of_at? (FileSystem.isSome_at?_of_locate hlocate) hn]
      simp
  · have hbegins := searchStart_of_missing (hgrows.hasPath_eq_false hmissing)
    refine sameSearch_of_begins h hclear ?_ ?_
    · rw [hbegins, searchStart_of_missing hmissing]
    · rwa [hbegins]

end Configuration

namespace Settings

/-- Where the search is the same, so are the settings, but for what the call names. -/
theorem resolve_of_sameSearch {fs fs' : FileSystem} {start : Option String}
    (h : Configuration.SameSearch fs fs' (Path.ofString (start.getD "."))) {settings : Settings}
    (hresolve : resolve fs start none none = .ok settings) (output : Option String) :
    ∃ settings', resolve fs' start output none = .ok settings' ∧
      settings'.store = settings.store ∧ settings'.category = settings.category := by
  obtain ⟨hroot, found, hload, hsettings⟩ := exists_load_of_resolve hresolve
  have hencloses := Configuration.projectRoot_encloses fs (Path.ofString (start.getD "."))
  refine ⟨ofConfiguration settings.root found output none, ?_, ?_, ?_⟩
  · rw [hroot] at hload ⊢
    rw [resolve_eq, h.projectRoot_eq]
    dsimp only
    rw [h.load_eq hencloses, hload]
    rfl
  · rw [hsettings]
    rfl
  · rw [hsettings]
    rfl

end Settings
end RuleBuild
