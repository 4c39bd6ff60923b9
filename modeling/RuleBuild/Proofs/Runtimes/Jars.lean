import RuleBuild.Proofs.FileSystem.Scan
import RuleBuild.Proofs.Path.Identity
import RuleBuild.Runtimes

/-!
# The jars of a runtime

A runtime is given the jars below its path: in order, each by one text that leads to it, and nothing
else. A path that is written with nothing is read as the root instead, and one with an empty piece
after its leading dots leads the scan nowhere.
-/
namespace RuleBuild

/-- Whether a place is that of a jar below a directory, at any depth. -/
def FileSystem.IsJarBelow (fs : FileSystem) (dir place : Location) : Prop :=
  ∃ names stem, place = dir ++ (names ++ [stem ++ ".jar"]) ∧ (fs.at? place).isSome

namespace Runtime

/-- Whether texts list the jars below the directory that a path leads to. -/
structure ListsJars (fs : FileSystem) (p : Path) (jars : List String) : Prop where
  ordered : jars.Pairwise (· < ·)
  sound : ∀ jar ∈ jars, ∃ dir place,
    fs.locate p = .ok dir ∧ fs.IsJarBelow dir place ∧ fs.locate (Path.ofString jar) = .ok place
  complete : ∀ dir place, fs.locate p = .ok dir → fs.IsJarBelow dir place →
    ∃! jar, jar ∈ jars ∧ fs.locate (Path.ofString jar) = .ok place

variable {fs : FileSystem} {p : Path} {b : ScanBase} {dir names : Location}

theorem isJarName_iff {name : String} : isJarName name = true ↔ ∃ stem, name = stem ++ ".jar" := by
  rw [isJarName, List.isSuffixOf_iff_suffix]
  constructor
  · rintro ⟨cs, hcs⟩
    refine ⟨String.ofList cs, String.toList_inj.mp ?_⟩
    rw [String.toList_append, String.toList_ofList, hcs]
  · rintro ⟨stem, rfl⟩
    exact ⟨stem.toList, by rw [String.toList_append]⟩

theorem isJarBelow_iff :
    fs.IsJarBelow dir (dir ++ names) ↔
      names.getLast?.any isJarName = true ∧ (fs.at? (dir ++ names)).isSome = true := by
  rw [FileSystem.IsJarBelow]
  constructor
  · rintro ⟨before, stem, heq, hsome⟩
    obtain rfl := List.append_cancel_left heq
    refine ⟨?_, hsome⟩
    rw [List.getLast?_concat]
    exact isJarName_iff.mpr ⟨stem, rfl⟩
  · rintro ⟨hlast, hsome⟩
    cases hname : names.getLast? with
    | none => simp [hname] at hlast
    | some name =>
        rw [hname] at hlast
        obtain ⟨stem, rfl⟩ := isJarName_iff.mp hlast
        obtain ⟨before, rfl⟩ := List.getLast?_eq_some_iff.mp hname
        exact ⟨before, stem, rfl, hsome⟩

/-! ## The list of a scan -/

theorem jarsBelow_of_none (h : ScanBase.of? fs false p = none) : jarsBelow fs p = [] := by
  simp [jarsBelow, FileSystem.scan, h]

theorem mem_jarsBelow_iff (h : ScanBase.of? fs false p = some b) {jar : String} :
    jar ∈ jarsBelow fs p ↔
      ∃ names ∈ b.namesBelow fs, fs.IsJarBelow b.place (b.place ++ names) ∧
        (b.showEntry ⟨names⟩).toString = jar := by
  simp only [jarsBelow, FileSystem.scan, h, Bool.false_and, Bool.not_false, List.filter_true,
    List.mem_mergeSort, List.mem_map, List.mem_filter]
  constructor
  · rintro ⟨_, ⟨⟨names, hmem, rfl⟩, hjar⟩, rfl⟩
    exact ⟨names, hmem, isJarBelow_iff.mpr ⟨hjar, (ScanBase.mem_namesBelow_iff.mp hmem).2⟩, rfl⟩
  · rintro ⟨names, hmem, hjar, rfl⟩
    exact ⟨_, ⟨⟨names, hmem, rfl⟩, (isJarBelow_iff.mp hjar).1⟩, rfl⟩

/-- Distinct texts are in strict order once they are sorted. -/
theorem pairwise_mergeSort_of_nodup {texts : List String} (h : texts.Nodup) :
    (texts.mergeSort fun a b => a ≤ b).Pairwise (· < ·) := by
  have hsorted : (texts.mergeSort fun a b => a ≤ b).Pairwise fun a b => decide (a ≤ b) = true := by
    refine List.pairwise_mergeSort (fun a b c hab hbc => ?_) (fun a b => ?_) texts
    · exact decide_eq_true (String.le_trans (of_decide_eq_true hab) (of_decide_eq_true hbc))
    · simpa using String.le_total a b
  have hdistinct := (List.mergeSort_perm texts fun a b => a ≤ b).nodup_iff.mpr h
  refine hsorted.imp₂ (fun a b hle hne => String.not_le.mp fun hge => ?_) hdistinct
  exact hne (String.le_antisymm (of_decide_eq_true hle) hge)

/-- The text under which a scan shows something leads there. -/
theorem locate_text {hideDots : Bool} {path : String}
    (h : ScanBase.of? fs hideDots (Path.ofString path) = some b) (hmem : names ∈ b.namesBelow fs) :
    fs.locate (Path.ofString (b.showEntry ⟨names⟩).toString) = .ok (b.place ++ names) := by
  have hlocate := ScanBase.locate_showEntry h hmem
  have hsome := (ScanBase.mem_namesBelow_iff.mp hmem).2
  rw [Path.ofString_toString, hlocate]
  · intro hnil
    have hempty := FileSystem.not_isEmpty_of_locate hlocate
    simp [Path.isEmpty, hnil] at hempty
  · intro piece hpiece
    rcases ScanBase.mem_pieces_showEntry hpiece with hpiece | hpiece
    · rcases ScanBase.mem_pieces_shown h hpiece with rfl | rfl | hpiece
      · decide
      · decide
      · exact Path.slash_not_mem_of_mem_pieces hpiece
    · exact FileSystem.slash_not_mem_of_isName
        (FileSystem.isName_of_at? hsome (List.mem_append_right _ hpiece))

theorem pairwise_jarsBelow {path : String}
    (h : ScanBase.of? fs false (Path.ofString path) = some b) :
    (jarsBelow fs (Path.ofString path)).Pairwise (· < ·) := by
  refine pairwise_mergeSort_of_nodup (List.pairwise_map.mpr (List.Pairwise.filter _ ?_))
  simp only [FileSystem.scan, h, Bool.false_and, Bool.not_false, List.filter_true,
    List.pairwise_map]
  refine (ScanBase.pairwise_namesBelow fs b).imp_of_mem fun hnames hother hlt heq => ?_
  -- Two entries with one text would be found at one place.
  have hsame := locate_text h hnames
  rw [heq, locate_text h hother] at hsame
  rw [List.append_cancel_left (Except.ok.inj hsame)] at hlt
  exact List.lt_irrefl _ hlt

/-- What a scan of a directory lists are the jars below it. -/
theorem listsJars_of_scan {path : String}
    (h : ScanBase.of? fs false (Path.ofString path) = some b)
    (hlocate : fs.locate p = .ok b.place) : ListsJars fs p (jarsBelow fs (Path.ofString path)) := by
  refine ⟨pairwise_jarsBelow h, fun jar hjar => ?_, fun dir place hdir hplace => ?_⟩
  · obtain ⟨names, hmem, hbelow, rfl⟩ := (mem_jarsBelow_iff h).mp hjar
    exact ⟨b.place, _, hlocate, hbelow, locate_text h hmem⟩
  · obtain rfl := Except.ok.inj (hlocate.symm.trans hdir)
    obtain ⟨before, stem, rfl, hsome⟩ := hplace
    have hmem : before ++ [stem ++ ".jar"] ∈ b.namesBelow fs :=
      ScanBase.mem_namesBelow_iff.mpr ⟨List.concat_ne_nil _ _, hsome⟩
    refine ⟨_, ⟨(mem_jarsBelow_iff h).mpr ⟨_, hmem, ⟨before, stem, rfl, hsome⟩, rfl⟩,
      locate_text h hmem⟩, ?_⟩
    rintro jar ⟨hjar, hsame⟩
    obtain ⟨names, hother, _, rfl⟩ := (mem_jarsBelow_iff h).mp hjar
    rw [locate_text h hother] at hsame
    rw [List.append_cancel_left (Except.ok.inj hsame)]

theorem directory_of_isJarBelow {place : Location} (h : fs.IsJarBelow dir place) :
    fs.at? dir = some .directory := by
  obtain ⟨before, stem, rfl, hsome⟩ := h
  exact FileSystem.at?_eq_directory_of_append (List.concat_ne_nil _ _) hsome

theorem listsJars_nil_iff :
    ListsJars fs p [] ↔ ∀ dir place, fs.locate p = .ok dir → ¬ fs.IsJarBelow dir place := by
  constructor
  · intro h dir place hdir hplace
    obtain ⟨_, ⟨hmem, _⟩, _⟩ := h.complete dir place hdir hplace
    cases hmem
  · exact fun h => ⟨.nil, nofun, fun dir place hdir hplace => absurd hplace (h dir place hdir)⟩

theorem ListsJars.eq_nil {jars : List String} (h : ListsJars fs p jars)
    (hnone : ∀ dir place, fs.locate p = .ok dir → ¬ fs.IsJarBelow dir place) : jars = [] := by
  refine List.eq_nil_iff_forall_not_mem.mpr fun jar hjar => ?_
  obtain ⟨dir, place, hdir, hplace, _⟩ := h.sound jar hjar
  exact hnone dir place hdir hplace

/-! ## Paths that are read as they are written -/

theorem listsJars_of_not_gap {path : String} (hgap : ¬ (Path.ofString path).BeginsWithGap) :
    ListsJars fs (Path.ofString path) (jarsBelow fs (Path.ofString path)) := by
  have hempty : (Path.ofString path).isEmpty = false := by
    rw [Bool.eq_false_iff, ne_eq, Path.isEmpty_ofString_iff]
    rintro rfl
    exact hgap (by decide)
  cases hscan : ScanBase.of? fs false (Path.ofString path) with
  | some b => exact listsJars_of_scan hscan (ScanBase.start_of_scan hempty hscan).1
  | none =>
      rw [jarsBelow_of_none hscan]
      refine listsJars_nil_iff.mpr fun dir place hdir hplace => ?_
      obtain ⟨b, hb⟩ :=
        ScanBase.exists_of?_of_directory hdir (directory_of_isJarBelow hplace) hgap
      rw [hscan] at hb
      cases hb

theorem locate_nothing (fs : FileSystem) : fs.locate (Path.ofString "") = .error .notFound := rfl

/-- Jars found below a path that is written with nothing are those of the whole file system. -/
theorem jarsBelow_nothing_eq_nil_iff :
    jarsBelow fs (Path.ofString "") = [] ↔ ∀ place, ¬ fs.IsJarBelow [] place := by
  have hscan : ScanBase.of? fs false (Path.ofString "") = some ⟨⟨["", ""]⟩, []⟩ :=
    ScanBase.of?_of_isEmpty rfl
  have hlists : ListsJars fs ⟨["", ""]⟩ (jarsBelow fs (Path.ofString "")) :=
    listsJars_of_scan hscan rfl
  constructor
  · intro hnil place
    rw [hnil] at hlists
    exact listsJars_nil_iff.mp hlists [] place rfl
  · intro hnone
    refine hlists.eq_nil fun dir place hdir => ?_
    obtain rfl := Except.ok.inj hdir
    exact hnone place

theorem jarsBelow_of_gap {path : String} (hempty : path ≠ "")
    (hgap : (Path.ofString path).BeginsWithGap) : jarsBelow fs (Path.ofString path) = [] := by
  refine jarsBelow_of_none (ScanBase.of?_of_gap ?_ hgap)
  rwa [Bool.eq_false_iff, ne_eq, Path.isEmpty_ofString_iff]

/-- The jars found for a runtime are those below its path, and none if it has no path, one that is
written with nothing, or one that leads to no directory; to look for them again changes nothing.
This is so exactly if there is no jar anywhere that a path written with nothing would find, and none
below the directory of a path with an empty piece after its leading dots. -/
theorem jars_recognized_iff (fs : FileSystem) (r : Runtime) :
    let found := r.recognizeJars fs
    (∀ path ∈ r.path, ListsJars fs (Path.ofString path) found.jars) ∧
        ((∀ path ∈ r.path, path = "" ∨ fs.isDirectory (Path.ofString path) = false) →
          found.jars = []) ∧
        found.recognizeJars fs = found ↔
      ∀ path ∈ r.path,
        (path = "" → ∀ place, ¬ fs.IsJarBelow [] place) ∧
          ((Path.ofString path).BeginsWithGap → ∀ dir place,
            fs.locate (Path.ofString path) = .ok dir → ¬ fs.IsJarBelow dir place) := by
  intro found
  have hagain : found.recognizeJars fs = found := rfl
  cases hpath : r.path with
  | none =>
      have hnil : found.jars = [] := by simp [found, recognizeJars, hpath]
      simp [hagain, hnil]
  | some path =>
      have hjars : found.jars = jarsBelow fs (Path.ofString path) := by
        simp [found, recognizeJars, hpath]
      simp only [Option.mem_def, Option.some.injEq, forall_eq', hagain, and_true, hjars]
      by_cases hempty : path = ""
      · subst hempty
        simp only [true_or, forall_const, jarsBelow_nothing_eq_nil_iff, locate_nothing,
          reduceCtorEq, false_implies, implies_true, and_true]
        refine ⟨fun h => h.2, fun hnone => ⟨?_, hnone⟩⟩
        rw [jarsBelow_nothing_eq_nil_iff.mpr hnone, listsJars_nil_iff, locate_nothing]
        exact nofun
      · simp only [hempty, false_or, false_implies, true_and]
        by_cases hgap : (Path.ofString path).BeginsWithGap
        · rw [jarsBelow_of_gap hempty hgap, listsJars_nil_iff]
          exact ⟨fun h _ => h.1, fun hnone => ⟨hnone hgap, fun _ => rfl⟩⟩
        · have hlists : ListsJars fs (Path.ofString path) (jarsBelow fs (Path.ofString path)) :=
            listsJars_of_not_gap hgap
          refine iff_of_true ⟨hlists, fun hdir => ?_⟩ fun h => absurd h hgap
          refine hlists.eq_nil fun dir place hlocate hplace => ?_
          simp [FileSystem.isDirectory, FileSystem.find?, hlocate,
            directory_of_isJarBelow hplace] at hdir

/-- A directory with a jar in a hidden directory below it. -/
def installedEngine : FileSystem :=
  let made : Except FileError FileSystem := do
    let fs ← FileSystem.empty.ensureDirectory ⟨["", "lib", ".cache"]⟩
    let fs ← fs.write ⟨["", "lib", ".cache", "a.jar"]⟩ []
    fs.write ⟨["", "lib", "a.txt"]⟩ []
  made.toOption.getD .empty

theorem hiddenJar_recognized :
    let r : Runtime := ⟨"engine", "1", none, some "./lib/", true, ["b.jar"]⟩
    let found := r.recognizeJars installedEngine
    ListsJars installedEngine (Path.ofString "./lib/") found.jars ∧
      found.jars = ["lib/.cache/a.jar"] := by
  intro r found
  obtain ⟨hlists, _⟩ := (jars_recognized_iff installedEngine r).mpr fun path hpath => by
    obtain rfl := Option.some.inj hpath
    exact ⟨fun h => absurd h (by decide), fun h => absurd h (by decide)⟩
  exact ⟨hlists "./lib/" rfl, by decide +kernel⟩

/-- An empty piece after the leading dot hides the jars below a directory, and a path that is
written with nothing finds them. -/
theorem gap_hides_jars :
    let found (path : String) : Runtime :=
      recognizeJars installedEngine ⟨"engine", "1", none, some path, true, []⟩
    (found ".//lib").jars = [] ∧ installedEngine.isDirectory (Path.ofString ".//lib") = true ∧
      ¬ ListsJars installedEngine (Path.ofString ".//lib") (found ".//lib").jars ∧
      (found "").jars = ["/lib/.cache/a.jar"] := by
  intro found
  have hnil : (found ".//lib").jars = [] := by decide +kernel
  refine ⟨hnil, by decide +kernel, fun hlists => ?_, by decide +kernel⟩
  have hjar : installedEngine.IsJarBelow ["lib"] ["lib", ".cache", "a.jar"] :=
    ⟨[".cache"], "a", rfl, by decide +kernel⟩
  rw [hnil, listsJars_nil_iff] at hlists
  exact hlists ["lib"] _ (by decide +kernel) hjar

end Runtime
end RuleBuild
