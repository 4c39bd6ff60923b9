import RuleBuild.Proofs.Coverage
import RuleBuild.Proofs.FileSystem.Scan

/-!
# What a full build reports

A full build reports the rule texts and spreadsheets below its root, each once and in the order of
their names, except those with a dot at the beginning of a name on the way and those in the output
directory. Main statement: this is so unless the scan begins at a root that listings leave out.
-/
namespace RuleBuild

/-- The files that a full build is to report: those of a kind below the root, by the names that lead
to them, neither hidden nor in the output directory. -/
structure Selected (fs : FileSystem) (root out names : Location) (kind : ArtifactKind) : Prop where
  file : ∃ content, fs.at? (root ++ names) = some (.file content)
  extension : ∃ name, names.getLast? = some name ∧
    ∃ stem : String, stem ≠ "" ∧ name = stem ++ "." ++ kind.extension
  visible : ∀ name ∈ names, name.toList.head? ≠ some '.'
  outside : out ≠ [] → ¬ out <+: names

/-- Whether a result has one report for each of the given files and no other, in the order of their
names: on the names with slashes between them, with the kind, and not as removed. -/
def BuildResult.ReportsExactly (r : BuildResult) (given : Location → ArtifactKind → Prop) : Prop :=
  ∃ files : List (Location × ArtifactKind),
    (files.map (·.1)).Pairwise (· < ·) ∧
      (∀ names kind, (names, kind) ∈ files ↔ given names kind) ∧
      r.artifacts.map ArtifactReport.subject =
        files.map fun f => ("/".intercalate f.1, some f.2, false)

def BuildSettings.IsFull (s : BuildSettings) (kind : BuildKind) : Prop :=
  s.buildAll = true ∨ kind = .full ∨ kind = .incremental none

/-! ## One file -/

/-- A path below the root, by its names. -/
structure Path.Reaches (p : Path) (fs : FileSystem) (root : Path) (names : Location) : Prop where
  absolute : p.isAbsolute = true
  components : p.components = root.components ++ names.map .name
  locate : fs.locate p = .ok (root.names ++ names)

namespace ScanBase.Opens

variable {fs : FileSystem} {b : ScanBase} {root : Path} {names : Location}

/-- What a scan shows stands for what was found. -/
theorem standsFor (h : b.Opens fs root) (hmem : names ∈ b.namesBelow fs) :
    (b.showEntry ⟨names⟩).StandsFor fs root b.place names := by
  obtain ⟨habs, hcomponents, hlocate⟩ := h.shown.entry hmem
  refine .of_components_eq (habs.trans h.isAbsolute) ?_ (mem_namesBelow_iff.mp hmem).1 hlocate
  rw [hcomponents, h.components]

theorem reaches (h : b.Opens fs root) (habs : root.isAbsolute = true)
    (hplace : b.place = root.names) (hmem : names ∈ b.namesBelow fs) :
    (b.showEntry ⟨names⟩).Reaches fs root names := by
  obtain ⟨hshown, hcomponents, hlocate⟩ := h.shown.entry hmem
  refine ⟨hshown.trans (h.isAbsolute.trans habs), ?_, hplace ▸ hlocate⟩
  rw [hcomponents, h.components]

end ScanBase.Opens

namespace Path.Reaches

variable {fs : FileSystem} {root p : Path} {names : Location}

theorem hasPath (h : p.Reaches fs root names) : fs.hasPath p = true := by
  rw [FileSystem.hasPath, h.locate]
  rfl

theorem find? (h : p.Reaches fs root names) : fs.find? p = fs.at? (root.names ++ names) := by
  rw [FileSystem.find?, h.locate]

theorem liesBelow (h : p.Reaches fs root names) : p.LiesBelow root names :=
  ⟨h.absolute, h.components⟩

theorem standsFor (h : p.Reaches fs root names) (hroot : root.isAbsolute = true)
    (hne : names ≠ []) : p.StandsFor fs root root.names names :=
  .of_components_eq (h.absolute.trans hroot.symm) h.components hne h.locate

/-- Two paths that lead to the same place below the root are spoken of alike. -/
theorem subject?_congr {s : BuildSettings} {p' : Path} (h : p.Reaches fs s.root names)
    (h' : p'.Reaches fs s.root names) (hroot : s.root.isAbsolute = true) (hne : names ≠ []) :
    s.subject? fs p = s.subject? fs p' :=
  (h.standsFor hroot hne).subject?_congr (h'.standsFor hroot hne) rfl

/-- An output directory given by a path from the root excludes what begins with its names. -/
theorem isExcluded_iff {s : BuildSettings} {rel? : Option Path} (h : p.Reaches fs s.root names)
    (hroot : s.root.isAbsolute = true) (hout : s.outputDir = rel?.map s.root.join)
    (hrel : ∀ rel ∈ rel?, rel.isAbsolute = false ∧ .up ∉ rel.components) :
    s.isExcluded p = true ↔ rel?.elim [] Path.names ≠ [] ∧ rel?.elim [] Path.names <+: names := by
  rw [BuildSettings.isExcluded, hout]
  cases rel? with
  | none => simp
  | some rel =>
      obtain ⟨habs, hup⟩ := hrel rel rfl
      simp [below_join (not_isEmpty_of_isAbsolute hroot) habs hup, h.liesBelow.below,
        List.prefix_map_iff_of_injective Component.name_injective]

end Path.Reaches

def selectedKind? (fs : FileSystem) (root out names : Location) : Option ArtifactKind :=
  if names.any ScanBase.isDotName ∨ out ≠ [] ∧ out <+: names then none
  else
    match fs.at? (root ++ names) with
    | some (.file _) => names.getLast?.bind ArtifactKind.ofFileName
    | _ => none

theorem selectedKind?_eq_some_iff {fs : FileSystem} {root out names : Location}
    {kind : ArtifactKind} :
    selectedKind? fs root out names = some kind ↔ Selected fs root out names kind := by
  have hkind : names.getLast?.bind ArtifactKind.ofFileName = some kind ↔
      ∃ name, names.getLast? = some name ∧
        ∃ stem : String, stem ≠ "" ∧ name = stem ++ "." ++ kind.extension := by
    simp only [Option.bind_eq_some_iff, ArtifactKind.ofFileName_eq_some_iff]
  have hvisible : names.any ScanBase.isDotName = true ↔
      ¬ ∀ name ∈ names, name.toList.head? ≠ some '.' := by
    simp [ScanBase.isDotName]
  unfold selectedKind?
  constructor
  · intro h
    split at h
    · cases h
    · rename_i hfree
      obtain ⟨hdots, hout⟩ := not_or.mp hfree
      split at h
      · rename_i content hentry
        exact ⟨⟨content, hentry⟩, hkind.mp h, not_not.mp (hvisible.not.mp hdots),
          fun hne hpre => hout ⟨hne, hpre⟩⟩
      · cases h
  · rintro ⟨⟨content, hentry⟩, hext, hdots, hout⟩
    have hfree : ¬ (names.any ScanBase.isDotName = true ∨ out ≠ [] ∧ out <+: names) :=
      not_or.mpr ⟨hvisible.not.mpr (not_not.mpr hdots), fun hor => hout hor.1 hor.2⟩
    rw [if_neg hfree, hentry]
    exact hkind.mpr hext

/-- What is shown under a path is visited, and the report is about the file of these names, exactly
if it is to be reported. -/
theorem Path.Reaches.scanned {fs : FileSystem} {s : BuildSettings} {p : Path} {names : Location}
    {rel? : Option Path} (h : p.Reaches fs s.root names) (hne : names ≠ [])
    (hroot : s.root.isAbsolute = true) (hout : s.outputDir = rel?.map s.root.join)
    (hrel : ∀ rel ∈ rel?, rel.isAbsolute = false ∧ .up ∉ rel.components) :
    (if (selectedKind? fs s.root.names [] names).isSome then s.subject? fs p else none) =
      (selectedKind? fs s.root.names (rel?.elim [] Path.names) names).map
        fun kind => ("/".intercalate names, some kind, false) := by
  have hexcluded := h.isExcluded_iff hroot hout hrel
  unfold selectedKind? BuildSettings.subject?
  by_cases hdots : names.any ScanBase.isDotName = true
  · simp [hdots]
  · by_cases hin : rel?.elim [] Path.names ≠ [] ∧ rel?.elim [] Path.names <+: names
    · simp [hexcluded.mpr hin, hin]
    · have hkept : s.isExcluded p = false := by simpa using hexcluded.not.mpr hin
      rw [if_neg (not_or.mpr ⟨hdots, hin⟩), if_neg (not_or.mpr ⟨hdots, by simp⟩), hkept]
      cases fs.at? (s.root.names ++ names) with
      | none => simp
      | some e =>
          cases e with
          | directory => simp
          | file content =>
              cases hkind : names.getLast?.bind ArtifactKind.ofFileName with
              | none => simp
              | some kind =>
                  simp [Artifact.ofPath?, h.liesBelow.ofPath? hne, hkind, h.hasPath,
                    h.liesBelow.artifactId hroot hne]

/-! ## All files -/

/-- The files that a full build is to report, in the order of their names. -/
def selectedFiles (fs : FileSystem) (b : ScanBase) (out : Location) :
    List (Location × ArtifactKind) :=
  (b.namesBelow fs).filterMap fun names => (selectedKind? fs b.place out names).map (names, ·)

theorem pairwise_selectedFiles (fs : FileSystem) (b : ScanBase) (out : Location) :
    ((selectedFiles fs b out).map (·.1)).Pairwise (· < ·) := by
  rw [selectedFiles, List.pairwise_map, List.pairwise_filterMap]
  refine (ScanBase.pairwise_namesBelow fs b).imp ?_
  intro names names' hlt f hf f' hf'
  obtain ⟨_, _, rfl⟩ := Option.map_eq_some_iff.mp hf
  obtain ⟨_, _, rfl⟩ := Option.map_eq_some_iff.mp hf'
  exact hlt

theorem mem_selectedFiles_iff {fs : FileSystem} {b : ScanBase} {out names : Location}
    {kind : ArtifactKind} :
    (names, kind) ∈ selectedFiles fs b out ↔ Selected fs b.place out names kind := by
  rw [selectedFiles, List.mem_filterMap, ← selectedKind?_eq_some_iff]
  constructor
  · rintro ⟨names', _, hmap⟩
    obtain ⟨kind', hkind, heq⟩ := Option.map_eq_some_iff.mp hmap
    cases heq
    exact hkind
  · intro hkind
    have hselected := selectedKind?_eq_some_iff.mp hkind
    obtain ⟨content, hentry⟩ := hselected.file
    obtain ⟨name, hname, _⟩ := hselected.extension
    have hne : names ≠ [] := by
      rintro rfl
      cases hname
    exact ⟨names, ScanBase.mem_namesBelow_iff.mpr ⟨hne, by simp [hentry]⟩, by rw [hkind]; rfl⟩

namespace BuildSettings

/-- Where what is found is shown by paths that stand for it, a scan shows the files of a kind that
are not hidden, in the order of their names. -/
theorem scan_eq_map {s : BuildSettings} {fs : FileSystem} {b : ScanBase}
    (hscan : ScanBase.of? fs true s.root = some b)
    (hstands : ∀ names ∈ b.namesBelow fs,
      (b.showEntry ⟨names⟩).StandsFor fs s.root b.place names) :
    s.scan fs =
      ((b.namesBelow fs).filter fun names => (selectedKind? fs b.place [] names).isSome).map
        fun names => b.showEntry ⟨names⟩ := by
  rw [scan, FileSystem.scan, hscan]
  simp only [Bool.true_and, List.map_map, List.filter_map, List.filter_filter]
  refine congrArg (List.map _) (List.filter_congr fun names hmem => ?_)
  have hstands := hstands names hmem
  simp only [Function.comp_apply, hstands.kind, hstands.isHidden, FileSystem.isFile,
    hstands.find?, selectedKind?]
  by_cases hdots : names.any ScanBase.isDotName = true
  · simp [hdots]
  · cases fs.at? (b.place ++ names) with
    | none => simp
    | some e =>
        cases e with
        | directory => simp
        | file content => simp [hdots]

/-- The scan of a root that listings do not leave out shows the files to be reported and nothing
else that is visited. -/
theorem scan_subjects {s : BuildSettings} {fs : FileSystem} {b : ScanBase} {rel? : Option Path}
    (hscan : ScanBase.of? fs true s.root = some b) (hopens : b.Opens fs s.root)
    (hplace : b.place = s.root.names) (hroot : s.root.isAbsolute = true)
    (hout : s.outputDir = rel?.map s.root.join)
    (hrel : ∀ rel ∈ rel?, rel.isAbsolute = false ∧ .up ∉ rel.components) :
    (s.scan fs).filterMap (s.subject? fs) =
      (selectedFiles fs b (rel?.elim [] Path.names)).map
        fun f => ("/".intercalate f.1, some f.2, false) := by
  rw [scan_eq_map hscan fun names hmem => hopens.standsFor hmem, selectedFiles,
    List.map_filterMap, List.filterMap_map, List.filterMap_filter]
  -- Both sides are one pass over the names below the root; they agree at each of them.
  apply List.filterMap_congr
  intro names hmem
  have hne := (ScanBase.mem_namesBelow_iff.mp hmem).1
  have hreaches := hopens.reaches hroot hplace hmem
  simp only [Function.comp_apply, Option.map_map, hplace]
  exact hreaches.scanned hne hroot hout hrel

/-- The scan of such a root shows the files of a kind below it that are not hidden, each once, by a
path that leads to it. -/
theorem exists_scan_eq_map {s : BuildSettings} {fs : FileSystem} (hroot : s.root.isAbsolute = true)
    (hup : .up ∉ s.root.components) (hdir : fs.at? s.root.names = some .directory)
    (hlisted : ∀ name ∈ s.root.names, ScanBase.isUnlisted name = false) :
    ∃ (shown : Location → Path) (files : List Location),
      s.scan fs = files.map shown ∧ files.Pairwise (· < ·) ∧
        (∀ names ∈ files, names ≠ [] ∧ (shown names).Reaches fs s.root names) ∧
        ∀ names, names ∈ files ↔
          (∃ content, fs.at? (s.root.names ++ names) = some (.file content)) ∧
            (∃ kind, names.getLast?.bind ArtifactKind.ofFileName = some kind) ∧
            ∀ name ∈ names, name.toList.head? ≠ some '.' := by
  obtain ⟨b, hscan, hopens, hplace⟩ := ScanBase.of?_of_directory hroot hup hdir hlisted
  refine ⟨_, _, scan_eq_map hscan fun names hmem => hopens.standsFor hmem, ?_, ?_, ?_⟩
  · exact (ScanBase.pairwise_namesBelow fs b).filter _
  · intro names hmem
    have hbelow := (List.mem_filter.mp hmem).1
    exact ⟨(ScanBase.mem_namesBelow_iff.mp hbelow).1, hopens.reaches hroot hplace hbelow⟩
  · intro names
    rw [List.mem_filter, hplace, Option.isSome_iff_exists]
    simp only [selectedKind?_eq_some_iff]
    constructor
    · rintro ⟨_, kind, hselected⟩
      have hkind := ArtifactKind.ofFileName_getLast?_iff names kind
      exact ⟨hselected.file, ⟨kind, hkind.mpr hselected.extension⟩, hselected.visible⟩
    · rintro ⟨⟨content, hfile⟩, ⟨kind, hkind⟩, hvisible⟩
      have hext := (ArtifactKind.ofFileName_getLast?_iff names kind).mp hkind
      refine ⟨?_, kind, ⟨content, hfile⟩, hext, hvisible, fun hne => absurd rfl hne⟩
      rw [ScanBase.mem_namesBelow_iff, hplace, hfile]
      refine ⟨?_, rfl⟩
      rintro rfl
      cases hkind

theorem scan_of_isUnlisted {s : BuildSettings} {name : String} (hroot : s.root.isAbsolute = true)
    (hmem : name ∈ s.root.names) (h : ScanBase.isUnlisted name = true) (fs : FileSystem) :
    s.scan fs = [] := by
  rw [scan, FileSystem.scan, ScanBase.of?_of_isUnlisted hroot hmem h]
  rfl

/-- Whatever a scan shows has been found below the directory that it begins in. -/
theorem exists_entry_of_mem_scan {s : BuildSettings} {fs : FileSystem} {p : Path}
    (h : p ∈ s.scan fs) :
    ∃ b, ScanBase.of? fs true s.root = some b ∧
      ∃ names ∈ b.namesBelow fs, b.showEntry ⟨names⟩ = p := by
  have hshown := (List.mem_filter.mp h).1
  rw [FileSystem.scan] at hshown
  cases hscan : ScanBase.of? fs true s.root with
  | none => simp [hscan] at hshown
  | some b =>
      rw [hscan] at hshown
      obtain ⟨_, hentry, rfl⟩ := List.mem_map.mp hshown
      obtain ⟨names, hmem, rfl⟩ := List.mem_map.mp hentry
      exact ⟨b, rfl, names, (List.mem_filter.mp hmem).1, rfl⟩

/-- Only a directory is scanned. -/
theorem isDirectory_of_mem_scan {s : BuildSettings} {fs : FileSystem} {p : Path}
    (hroot : s.root.isAbsolute = true) (h : p ∈ s.scan fs) : fs.isDirectory s.root = true := by
  obtain ⟨b, hscan, _⟩ := exists_entry_of_mem_scan h
  have hopens := ScanBase.opens_of_isAbsolute hroot hscan
  simp [FileSystem.isDirectory, FileSystem.find?, hopens.locate, hopens.directory]

/-- What a scan shows is an artifact below the root, whose names lead to it. -/
theorem reaches_of_mem_scan {s : BuildSettings} {fs : FileSystem} {p : Path}
    (hroot : s.root.isAbsolute = true) (hup : .up ∉ s.root.components) (h : p ∈ s.scan fs) :
    ∃ names kind, names ≠ [] ∧ (∀ name ∈ names, FileSystem.isName name = true) ∧
      p.Reaches fs s.root names ∧
      Artifact.ofPath? s.root p = some ⟨artifactId s.root p, p, kind⟩ := by
  have hlisted : ∀ name ∈ s.root.names, ScanBase.isUnlisted name = false := by
    intro name hmem
    cases hname : ScanBase.isUnlisted name with
    | false => rfl
    | true => simp [scan_of_isUnlisted hroot hmem hname] at h
  have hdir := (FileSystem.isDirectory_iff hroot hup).mp (isDirectory_of_mem_scan hroot h)
  obtain ⟨shown, files, hscan, _, hleads, hfiles⟩ := exists_scan_eq_map hroot hup hdir hlisted
  rw [hscan] at h
  obtain ⟨names, hmem, rfl⟩ := List.mem_map.mp h
  obtain ⟨hne, hreaches⟩ := hleads names hmem
  obtain ⟨⟨content, hfile⟩, ⟨kind, hkind⟩, _⟩ := (hfiles names).mp hmem
  refine ⟨names, kind, hne, ?_, hreaches, ?_⟩
  · intro name hname
    exact FileSystem.isName_of_at? (by rw [hfile]; rfl) (List.mem_append_right _ hname)
  · rw [Artifact.ofPath?, hreaches.liesBelow.ofPath? hne, hkind]
    rfl

theorem candidates?_of_isFull {s : BuildSettings} {fs : FileSystem} {kind : BuildKind}
    (h : s.IsFull kind) (hdir : fs.isDirectory s.root = true) :
    s.candidates? fs kind = some (s.scan fs) := by
  unfold candidates?
  rw [if_pos hdir]
  rcases h with hall | rfl | rfl
  · split
    · rw [if_pos hall]
    · rfl
  · rfl
  · rfl

end BuildSettings

variable {S T : Type} [ProblemStore S]

theorem build_subjects {s : BuildSettings} {tools : Tools T} {fs : FileSystem} {kind : BuildKind}
    {store : S} {t : T} {ps : List Path} (hcandidates : s.candidates? fs kind = some ps)
    (h : (build s tools fs kind store t).result.summary.cancelled = false) :
    (build s tools fs kind store t).result.artifacts.map ArtifactReport.subject =
      ps.filterMap (s.subject? fs) := by
  rw [build_cancelled, Tools.buildTour, hcandidates] at h
  rw [build_artifacts, Tools.buildTour, hcandidates]
  exact Tools.tour_subjects h

/-- A full build that is not cancelled visits what a scan shows to the end. -/
theorem full_build_subjects {s : BuildSettings} {tools : Tools T} {fs : FileSystem}
    {kind : BuildKind} {store : S} {t : T} (hkind : s.IsFull kind)
    (hdir : fs.isDirectory s.root = true)
    (h : (build s tools fs kind store t).result.summary.cancelled = false) :
    (build s tools fs kind store t).result.artifacts.map ArtifactReport.subject =
      (s.scan fs).filterMap (s.subject? fs) :=
  build_subjects (BuildSettings.candidates?_of_isFull hkind hdir) h

theorem BuildResult.reportsExactly_iff_of_nil {r : BuildResult}
    {given : Location → ArtifactKind → Prop} (h : r.artifacts = []) :
    r.ReportsExactly given ↔ ∀ names kind, ¬ given names kind := by
  constructor
  · rintro ⟨files, _, hmem, hreports⟩ names kind hgiven
    rw [h, List.map_nil, eq_comm, List.map_eq_nil_iff] at hreports
    have hin := (hmem names kind).mpr hgiven
    rw [hreports] at hin
    cases hin
  · intro hnone
    refine ⟨[], .nil, fun names kind => ?_, by rw [h]; rfl⟩
    exact iff_of_false (by simp) (hnone names kind)

theorem artifacts_of_isUnlisted {s : BuildSettings} {tools : Tools T} {fs : FileSystem}
    {kind : BuildKind} {store : S} {t : T} {name : String} (hroot : s.root.isAbsolute = true)
    (hmem : name ∈ s.root.names) (hname : ScanBase.isUnlisted name = true)
    (hkind : s.IsFull kind) (hdir : fs.isDirectory s.root = true)
    (h : (build s tools fs kind store t).result.summary.cancelled = false) :
    (build s tools fs kind store t).result.artifacts = [] := by
  have hsubjects := full_build_subjects hkind hdir h
  rw [BuildSettings.scan_of_isUnlisted hroot hmem hname, List.filterMap_nil] at hsubjects
  exact List.map_eq_nil_iff.mp hsubjects

/-- A full build reports files, each by its names. -/
theorem names_of_full_report {s : BuildSettings} {tools : Tools T} {fs : FileSystem}
    {kind : BuildKind} {store : S} {t : T} {r : ArtifactReport} (hroot : s.root.isAbsolute = true)
    (hup : .up ∉ s.root.components) (hdir : fs.isDirectory s.root = true) (hkind : s.IsFull kind)
    (h : (build s tools fs kind store t).result.summary.cancelled = false)
    (hr : r ∈ (build s tools fs kind store t).result.artifacts) :
    ∃ p ∈ s.scan fs, ∃ names, names ≠ [] ∧ (∀ name ∈ names, FileSystem.isName name = true) ∧
      p.Reaches fs s.root names ∧ s.subject? fs p = some r.subject ∧
      r.artifact = "/".intercalate names := by
  have hmem := List.mem_map_of_mem (f := ArtifactReport.subject) hr
  rw [full_build_subjects hkind hdir h] at hmem
  obtain ⟨p, hp, hsubject⟩ := List.mem_filterMap.mp hmem
  obtain ⟨names, _, hne, hnamed, hreaches, _⟩ := BuildSettings.reaches_of_mem_scan hroot hup hp
  exact ⟨p, hp, names, hne, hnamed, hreaches, hsubject,
    hreaches.liesBelow.artifact_of_subject? hroot hne hsubject⟩

/-- No two reports of a full build are about the same artifact, and none is about the project. -/
theorem full_build_artifacts {s : BuildSettings} {tools : Tools T} {fs : FileSystem}
    {kind : BuildKind} {store : S} {t : T} (hroot : s.root.isAbsolute = true)
    (hup : .up ∉ s.root.components) (hdir : fs.isDirectory s.root = true) (hkind : s.IsFull kind)
    (h : (build s tools fs kind store t).result.summary.cancelled = false) :
    ((build s tools fs kind store t).result.artifacts.map (·.artifact)).Nodup ∧
      ∀ r ∈ (build s tools fs kind store t).result.artifacts, r.artifact ≠ projectId := by
  constructor
  · by_cases hlisted : ∀ name ∈ s.root.names, ScanBase.isUnlisted name = false
    · have hnames := (FileSystem.isDirectory_iff hroot hup).mp hdir
      obtain ⟨shown, files, hscan, hsorted, hleads, hfiles⟩ :=
        BuildSettings.exists_scan_eq_map hroot hup hnames hlisted
      have hnamed {names : Location} (hmem : names ∈ files) :
          ∀ name ∈ names, FileSystem.isName name = true := by
        obtain ⟨⟨content, hfile⟩, _⟩ := (hfiles names).mp hmem
        exact fun name hname =>
          FileSystem.isName_of_at? (by rw [hfile]; rfl) (List.mem_append_right _ hname)
      have hartifact {names : Location} (hmem : names ∈ files)
          {x : String × Option ArtifactKind × Bool} (hx : s.subject? fs (shown names) = some x) :
          x.1 = "/".intercalate names := by
        obtain ⟨hne, hreaches⟩ := hleads names hmem
        exact hreaches.liesBelow.artifact_of_subject? hroot hne hx
      have hids : (build s tools fs kind store t).result.artifacts.map (·.artifact) =
          (files.filterMap (s.subject? fs ∘ shown)).map (·.1) := by
        rw [← List.filterMap_map, ← hscan, ← full_build_subjects hkind hdir h, List.map_map]
        rfl
      rw [hids, List.Nodup, List.pairwise_map, List.pairwise_filterMap]
      refine hsorted.imp_of_mem ?_
      intro names names' hmem hmem' hlt x hx x' hx' heq
      rw [hartifact hmem hx, hartifact hmem' hx'] at heq
      have hsame := intercalate_injective (hleads names hmem).1 (hleads names' hmem').1
        (hnamed hmem) (hnamed hmem') heq
      rw [hsame] at hlt
      exact List.lt_irrefl names' hlt
    · obtain ⟨name, hmem, hname⟩ : ∃ name ∈ s.root.names, ScanBase.isUnlisted name = true := by
        simpa using hlisted
      rw [artifacts_of_isUnlisted hroot hmem hname hkind hdir h]
      exact .nil
  · intro r hr
    obtain ⟨_, _, names, hne, hnamed, _, _, hid⟩ := names_of_full_report hroot hup hdir hkind h hr
    rw [hid]
    exact intercalate_ne_projectId hne hnamed

/-! ## A directory with one rule text -/

namespace FileSystem

/-- A directory with one rule text in it, and nothing else. -/
def ofOneRule (dir : String) (hdir : isName dir = true) : FileSystem :=
  have hslash : Entries.at? ∅ [] = some .directory := if_pos rfl
  have hat : Entries.at? ((∅ : Entries).insert ([] ++ [dir]) .directory) [dir] =
      some .directory := by
    simp [Entries.at?]
  { entries :=
      ((∅ : Entries).insert ([] ++ [dir]) .directory).insert ([dir] ++ ["x.drl"]) (.file [])
    current := []
    refuses := fun _ => none
    closed := (Entries.closed_empty.insert hslash (by simp)).insert hat (by simp)
    named := (Entries.named_empty.insert hslash hdir).insert hat (by decide) }

theorem at?_ofOneRule (dir : String) (hdir : isName dir = true) :
    (ofOneRule dir hdir).at? [dir] = some .directory := by
  simp [at?, Entries.at?, ofOneRule, Std.ExtTreeMap.getElem_insert]

theorem selected_ofOneRule (dir : String) (hdir : isName dir = true) :
    Selected (ofOneRule dir hdir) [dir] [] ["x.drl"] .ruleText where
  file := ⟨[], by simp [at?, Entries.at?, ofOneRule]⟩
  extension := ⟨"x.drl", rfl, "x", by decide, rfl⟩
  visible := by decide
  outside := fun h => absurd rfl h

end FileSystem

def acceptingTools : Tools Unit where
  compile _ _ t := (.done .clean, t)
  convert := none
  cancelled _ := false

theorem build_accepting_not_cancelled (s : BuildSettings) (fs : FileSystem) (kind : BuildKind)
    (store : S) : (build s acceptingTools fs kind store ()).result.summary.cancelled = false :=
  build_not_cancelled (fun _ => rfl) ..

/-- A build of a directory below the root. -/
def BuildSettings.ofDirectory (dir : String) (rel? : Option Path) : BuildSettings :=
  ⟨⟨["", dir]⟩, rel?.map (Path.join ⟨["", dir]⟩), false⟩

theorem BuildSettings.root_ofDirectory (dir : String) (hdir : FileSystem.isName dir = true)
    (rel? : Option Path) :
    (ofDirectory dir rel?).root.isAbsolute = true ∧ .up ∉ (ofDirectory dir rel?).root.components ∧
      (ofDirectory dir rel?).root.names = [dir] ∧
      (FileSystem.ofOneRule dir hdir).isDirectory (ofDirectory dir rel?).root = true := by
  have hroot : (ofDirectory dir rel?).root.isAbsolute = true :=
    (Path.isAbsolute_iff _).mpr ⟨dir, [], rfl⟩
  have hcomponents : (ofDirectory dir rel?).root.components = [.root, .name dir] := by
    rw [Path.components_of_isAbsolute hroot]
    have hslash : Path.component? "" = none := rfl
    simp [ofDirectory, hslash, FileSystem.component?_of_isName hdir]
  have hup : .up ∉ (ofDirectory dir rel?).root.components := by
    rw [hcomponents]
    simp
  have hnames : (ofDirectory dir rel?).root.names = [dir] := by
    rw [Path.names, hcomponents]
    rfl
  refine ⟨hroot, hup, hnames, (FileSystem.isDirectory_iff hroot hup).mpr ?_⟩
  rw [hnames]
  exact FileSystem.at?_ofOneRule dir hdir

def buildOneRule (dir : String) (hdir : FileSystem.isName dir = true) (rel? : Option Path) :
    Pass ProblemList Unit :=
  build (.ofDirectory dir rel?) acceptingTools (.ofOneRule dir hdir) .full
    (ProblemList.empty ProblemList.defaultCategory) ()

theorem buildOneRule_not_cancelled (dir : String) (hdir : FileSystem.isName dir = true)
    (rel? : Option Path) : (buildOneRule dir hdir rel?).result.summary.cancelled = false :=
  build_not_cancelled (fun _ => rfl) ..

/-! ## The whole build -/

/-- A full build that is not cancelled reports exactly the files to be reported, whatever the tools
make of them, unless there are some and the way to the root has a name that begins with a dot and
has to be quoted in a pattern. -/
theorem full_build_reports_exactly_iff (s : BuildSettings) (tools : Tools T) (fs : FileSystem)
    (kind : BuildKind) (store : S) (t : T) (rel? : Option Path)
    (hroot : s.root.isAbsolute = true) (hup : .up ∉ s.root.components)
    (hdir : fs.isDirectory s.root = true) (hout : s.outputDir = rel?.map s.root.join)
    (hrel : ∀ rel ∈ rel?, rel.isAbsolute = false ∧ .up ∉ rel.components)
    (hkind : s.IsFull kind)
    (hcancelled : (build s tools fs kind store t).result.summary.cancelled = false) :
    (build s tools fs kind store t).result.ReportsExactly
        (Selected fs s.root.names (rel?.elim [] Path.names)) ↔
      (∀ name ∈ s.root.names, ScanBase.isUnlisted name = false) ∨
        ∀ names kind, ¬ Selected fs s.root.names (rel?.elim [] Path.names) names kind := by
  by_cases hlisted : ∀ name ∈ s.root.names, ScanBase.isUnlisted name = false
  · have hnames := (FileSystem.isDirectory_iff hroot hup).mp hdir
    obtain ⟨b, hscan, hopens, hplace⟩ := ScanBase.of?_of_directory hroot hup hnames hlisted
    refine iff_of_true ⟨selectedFiles fs b (rel?.elim [] Path.names), ?_, ?_, ?_⟩ (.inl hlisted)
    · exact pairwise_selectedFiles fs b _
    · intro names kind
      rw [mem_selectedFiles_iff, hplace]
    · rw [full_build_subjects hkind hdir hcancelled]
      exact BuildSettings.scan_subjects hscan hopens hplace hroot hout hrel
  · obtain ⟨name, hmem, hname⟩ : ∃ name ∈ s.root.names, ScanBase.isUnlisted name = true := by
      simpa using hlisted
    have hnil := artifacts_of_isUnlisted hroot hmem hname hkind hdir hcancelled
    rw [BuildResult.reportsExactly_iff_of_nil hnil]
    exact ⟨.inr, fun h => h.resolve_left hlisted⟩

theorem rules_reported_exactly :
    (BuildSettings.ofDirectory "rules" (some ⟨["target"]⟩)).root.isAbsolute = true ∧
      .up ∉ (BuildSettings.ofDirectory "rules" (some ⟨["target"]⟩)).root.components ∧
      (FileSystem.ofOneRule "rules" (by decide)).isDirectory
        (BuildSettings.ofDirectory "rules" (some ⟨["target"]⟩)).root = true ∧
      (∀ rel ∈ some (⟨["target"]⟩ : Path), rel.isAbsolute = false ∧ .up ∉ rel.components) ∧
      (buildOneRule "rules" (by decide) (some ⟨["target"]⟩)).result.summary.cancelled = false ∧
      (buildOneRule "rules" (by decide) (some ⟨["target"]⟩)).result.ReportsExactly
        (Selected (.ofOneRule "rules" (by decide)) ["rules"] ["target"]) := by
  obtain ⟨hroot, hup, hnames, hdir⟩ :=
    BuildSettings.root_ofDirectory "rules" (by decide) (some ⟨["target"]⟩)
  have hcancelled := buildOneRule_not_cancelled "rules" (by decide) (some ⟨["target"]⟩)
  have hrel : ∀ rel ∈ some (⟨["target"]⟩ : Path),
      rel.isAbsolute = false ∧ .up ∉ rel.components := by
    intro rel hmem
    cases hmem
    decide
  have hlisted : ∀ name ∈ ["rules"], ScanBase.isUnlisted name = false := by decide
  rw [← hnames] at hlisted
  have hexact := (full_build_reports_exactly_iff _ acceptingTools _ .full _ () _ hroot hup hdir rfl
    hrel (.inr (.inl rfl)) hcancelled).mpr (.inl hlisted)
  rw [hnames] at hexact
  exact ⟨hroot, hup, hdir, hrel, hcancelled, hexact⟩

/-- The rule text is not reported if the directory begins with a dot and has brackets in it. -/
theorem brackets_not_reported :
    (BuildSettings.ofDirectory ".a[b]" none).root.isAbsolute = true ∧
      .up ∉ (BuildSettings.ofDirectory ".a[b]" none).root.components ∧
      (FileSystem.ofOneRule ".a[b]" (by decide)).isDirectory
        (BuildSettings.ofDirectory ".a[b]" none).root = true ∧
      (buildOneRule ".a[b]" (by decide) none).result.summary.cancelled = false ∧
      ¬ (buildOneRule ".a[b]" (by decide) none).result.ReportsExactly
        (Selected (.ofOneRule ".a[b]" (by decide)) [".a[b]"] []) := by
  obtain ⟨hroot, hup, hnames, hdir⟩ := BuildSettings.root_ofDirectory ".a[b]" (by decide) none
  have hcancelled := buildOneRule_not_cancelled ".a[b]" (by decide) none
  refine ⟨hroot, hup, hdir, hcancelled, ?_⟩
  have hmem : ".a[b]" ∈ (BuildSettings.ofDirectory ".a[b]" none).root.names := by simp [hnames]
  have hnil := artifacts_of_isUnlisted hroot hmem (by decide) (.inr (.inl rfl)) hdir hcancelled
  intro hexact
  exact (BuildResult.reportsExactly_iff_of_nil hnil).mp hexact ["x.drl"] .ruleText
    (FileSystem.selected_ofOneRule ".a[b]" (by decide))

end RuleBuild
