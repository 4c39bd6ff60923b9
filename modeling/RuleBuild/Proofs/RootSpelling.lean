import RuleBuild.Proofs.IncrementalBuild

/-!
# The spelling of the root

A root that is given by a relative path is to be built like the directory that it leads to. A scan
shows its entries without the dots that the root begins with, while identities are made from the
root as it is spelt. So the builds are alike for the roots that are spelt plainly, and for others
only where neither reports anything.
-/
namespace RuleBuild

namespace FileSystem

/-- The canonical path of a directory leads to it by its names. -/
theorem canonical_of_directory {fs : FileSystem} {p root : Path} (hdir : fs.isDirectory p = true)
    (h : fs.canonical p = .ok root) :
    root.isAbsolute = true ∧ .up ∉ root.components ∧ fs.locate p = .ok root.names ∧
      fs.at? root.names = some .directory := by
  obtain ⟨place, hlocate, hentry⟩ := locate_of_isDirectory hdir
  rw [canonical, hlocate] at h
  obtain rfl := Except.ok.inj h
  have hcomponents := components_pathTo fun _ hmem => isName_of_at? (by rw [hentry]; rfl) hmem
  have hnames : (pathTo place).names = place := by
    rw [Path.names, hcomponents, List.filterMap_cons_none rfl, List.filterMap_map]
    simp [Component.name?, Function.comp_def]
  rw [hnames]
  refine ⟨isAbsolute_pathTo place, ?_, hlocate, hentry⟩
  rw [hcomponents]
  simp

end FileSystem

/-! ## Roots spelt plainly -/

/-- A path that begins with no dot, unless it consists of dots, and that no listing leaves out. -/
structure Path.SpeltPlainly (p : Path) : Prop where
  lead : p.pieces.head? = some "." → ∀ piece ∈ p.pieces, piece = "."
  listed : ∀ piece ∈ p.pieces, ScanBase.isUnlisted piece = false

namespace ScanBase

variable {fs : FileSystem} {root : Path} {b b' : ScanBase} {place names : Location}

theorem namesBelow_congr (h : b.place = b'.place) : b.namesBelow fs = b'.namesBelow fs := by
  rw [namesBelow, namesBelow, h]

/-- Where relative paths begin, entries are shown by their names, which stand for themselves. -/
theorem start_standsFor (hrel : root.isAbsolute = false) (hroot : root.components = [.here])
    (hmem : names ∈ (start fs).namesBelow fs) :
    ((start fs).showEntry ⟨names⟩).StandsFor fs root fs.current names := by
  obtain ⟨hne, hsome⟩ := mem_namesBelow_iff.mp hmem
  have hnames : ∀ name ∈ names, FileSystem.isName name = true := fun name hname =>
    FileSystem.isName_of_at? hsome (List.mem_append_right _ hname)
  have hentry : (start fs).showEntry ⟨names⟩ = ⟨names⟩ := rfl
  have habs := FileSystem.isAbsolute_of_isName hnames
  obtain ⟨n, ns, rfl⟩ := List.exists_cons_of_ne_nil hne
  obtain ⟨hslash, hdot, _⟩ := FileSystem.isName_spec (hnames n List.mem_cons_self)
  have hcomponents : Path.components ⟨n :: ns⟩ = (n :: ns).map .name := by
    rw [Path.components_of_pieces rfl hslash hdot, FileSystem.filterMap_component?_of_isName hnames]
  rw [hentry]
  have hwhole : Path.components ⟨n :: ns⟩ = [] ++ (n :: ns).map .name := hcomponents
  refine ⟨?_, Path.ofPath?_of_components_eq hwhole hne, ?_, ?_⟩
  · simp [Path.below, Path.strip?, hroot, hcomponents]
  · have hway : Path.way false ((n :: ns).map .name) [.here] = some ((n :: ns).map .name) := by
      simp [Path.way, Path.way_nil]
    apply artifactId_of_relativeTo? ?_ hne
    rw [Path.relativeTo?, Path.wayTo?, if_pos (habs.trans hrel.symm), hcomponents, hroot, hway,
      Option.map_some, Path.dropDots_eq_self (by simp)]
  · exact locate_showEntry_start hmem

theorem standsFor_of_spelt_plainly (hrel : root.isAbsolute = false)
    (hlocate : fs.locate root = .ok place) (hdir : fs.at? place = some .directory)
    (h : root.SpeltPlainly) :
    ∃ b, of? fs true root = some b ∧ b.place = place ∧
      ∀ names ∈ b.namesBelow fs, (b.showEntry ⟨names⟩).StandsFor fs root b.place names := by
  by_cases hlead : root.pieces.head? = some "."
  · obtain ⟨hscan, hcomponents⟩ := of?_of_dots hrel hlocate (h.lead hlead)
    refine ⟨start fs, hscan, ?_, fun names hmem => start_standsFor hrel hcomponents hmem⟩
    obtain ⟨x, xs, hpieces, _, hwalk⟩ := FileSystem.walk_of_relative hrel hlocate
    exact (FileSystem.eq_of_walk_idle hwalk fun piece hmem =>
      .inr (h.lead hlead piece (hpieces ▸ hmem))).symm
  · obtain ⟨b, hscan, hopens⟩ := opens_of_relative hrel hlocate hdir hlead h.listed
    exact ⟨b, hscan, Except.ok.inj (hopens.locate.symm.trans hlocate),
      fun names hmem => hopens.standsFor hmem⟩

end ScanBase

/-! ## Roots after a dot -/

/-- The way back from below a root after a dot goes up, since the dot hides that the two begin
alike. -/
theorem Path.up_mem_relativeTo?_of_here {root p : Path} {cs : List (Component String)}
    {names : Location}
    (habs : p.isAbsolute = root.isAbsolute) (hroot : root.components = .here :: cs) (hne : cs ≠ [])
    (hhere : .here ∉ cs) (hp : p.components = cs ++ names.map .name) (hnames : names ≠ []) :
    .up ∈ (relativeTo? root p).getD p.components := by
  obtain ⟨c, cs, rfl⟩ := List.exists_cons_of_ne_nil hne
  obtain ⟨a, rest, hrest⟩ :=
    List.exists_cons_of_ne_nil (List.append_ne_nil_of_right_ne_nil cs
      (mt List.map_eq_nil_iff.mp hnames : names.map Component.name ≠ []))
  have hc : c ≠ .here := fun heq => hhere (heq ▸ List.mem_cons_self)
  rw [List.cons_append, hrest] at hp
  have hstep : way false (c :: a :: rest) (.here :: c :: cs) =
      (way true (a :: rest) (c :: cs)).map (c :: ·) := by
    simp [way, hc]
  rw [relativeTo?, wayTo?, if_pos habs, hp, hroot, hstep]
  by_cases hup : c = .up
  · have hnone : way true (a :: rest) (c :: cs) = none := by simp [way, hup]
    rw [hnone, hup]
    exact List.mem_cons_self
  · have hsome : way true (a :: rest) (c :: cs) =
        some (.up :: cs.map (fun _ => .up) ++ a :: rest) := by
      simp [way, hc, hup]
    rw [hsome]
    exact up_mem_dropDots (List.mem_cons_of_mem _ (List.mem_append_left _ List.mem_cons_self))

/-! ## Builds that are alike -/

/-- The files that are visited, in order, each with what is said of it apart from diagnostics. -/
def BuildSettings.visits (s : BuildSettings) (fs : FileSystem) :
    List (Except FileError Location × String × Option ArtifactKind × Bool) :=
  (s.scan fs).filterMap fun p => (s.subject? fs p).map (fs.locate p, ·)

/-- Whether two builds visit the same files, report the same of them, and leave the same markers. -/
structure BuildsAlike {T : Type} (fs : FileSystem) (s s' : BuildSettings)
    (pass pass' : Pass ProblemList T) : Prop where
  visits : s.visits fs = s'.visits fs
  reports : pass.result.artifacts = pass'.result.artifacts
  markers : ∀ id : String,
    pass.recorded.store.markers[id]? = pass'.recorded.store.markers[id]?

section Builds

variable {T α : Type} {s s' : BuildSettings} {tools : Tools T} {fs : FileSystem}
  {kind kind' : BuildKind} {l : ProblemList} {t t' : T}

theorem BuildSettings.visits_subjects (s : BuildSettings) (fs : FileSystem) :
    (s.visits fs).map (·.2) = (s.scan fs).filterMap (s.subject? fs) := by
  rw [visits, List.map_filterMap]
  simp [Function.comp_def]

/-- Scans that begin at the same place and show paths that stand for the same make builds alike. -/
theorem builds_alike_of_scans {view : Path → α} {b b' : ScanBase} (htools : tools.Functional view)
    (hview : ∀ p p', view p = view p') (hkind : s.IsFull kind) (hkind' : s'.IsFull kind')
    (hdir : fs.isDirectory s.root = true) (hdir' : fs.isDirectory s'.root = true)
    (hrun : (build s tools fs kind l t).result.summary.cancelled = false)
    (hrun' : (build s' tools fs kind' l t').result.summary.cancelled = false)
    (hscan : ScanBase.of? fs true s.root = some b) (hscan' : ScanBase.of? fs true s'.root = some b')
    (hplace : b.place = b'.place)
    (hstands : ∀ names ∈ b.namesBelow fs,
      (b.showEntry ⟨names⟩).StandsFor fs s.root b.place names)
    (hstands' : ∀ names ∈ b'.namesBelow fs,
      (b'.showEntry ⟨names⟩).StandsFor fs s'.root b'.place names)
    (hout : s.outputDir.map (Path.below s.root) = s'.outputDir.map (Path.below s'.root)) :
    BuildsAlike fs s s' (build s tools fs kind l t) (build s' tools fs kind' l t') := by
  have hfiles := BuildSettings.scan_eq_map hscan hstands
  have hfiles' := BuildSettings.scan_eq_map hscan' hstands'
  rw [← hplace, ← ScanBase.namesBelow_congr hplace] at hfiles' hstands'
  have hsame {names : Location}
      (hmem : names ∈ (b.namesBelow fs).filter fun names =>
        (selectedKind? fs b.place [] names).isSome) :
      s.subject? fs (b.showEntry ⟨names⟩) = s'.subject? fs (b'.showEntry ⟨names⟩) ∧
        fs.locate (b.showEntry ⟨names⟩) = fs.locate (b'.showEntry ⟨names⟩) := by
    have hbelow := (List.mem_filter.mp hmem).1
    have hshown := hstands names hbelow
    have hshown' := hstands' names hbelow
    exact ⟨hshown.subject?_congr hshown' hout, hshown.locate.trans hshown'.locate.symm⟩
  have hreports : (build s tools fs kind l t).result.artifacts =
      (build s' tools fs kind' l t').result.artifacts := by
    rw [htools.build_reports (BuildSettings.candidates?_of_isFull hkind hdir) hrun t,
      htools.build_reports (BuildSettings.candidates?_of_isFull hkind' hdir') hrun' t, hfiles,
      hfiles', List.filterMap_map, List.filterMap_map]
    apply List.filterMap_congr
    intro names hmem
    exact htools.visit_congr (hsame hmem).1 (hsame hmem).2 (hview _ _) t
  refine ⟨?_, hreports, fun id => by rw [build_list, build_list, hreports]⟩
  rw [BuildSettings.visits, BuildSettings.visits, hfiles, hfiles', List.filterMap_map,
    List.filterMap_map]
  apply List.filterMap_congr
  intro names hmem
  simp only [Function.comp_apply, (hsame hmem).1, (hsame hmem).2]

/-- Builds that report nothing are alike. -/
theorem builds_alike_of_nothing (hkind : s.IsFull kind) (hkind' : s'.IsFull kind')
    (hdir : fs.isDirectory s.root = true) (hdir' : fs.isDirectory s'.root = true)
    (hrun : (build s tools fs kind l t).result.summary.cancelled = false)
    (hrun' : (build s' tools fs kind' l t').result.summary.cancelled = false)
    (h : (build s tools fs kind l t).result.artifacts = [])
    (h' : (build s' tools fs kind' l t').result.artifacts = []) :
    BuildsAlike fs s s' (build s tools fs kind l t) (build s' tools fs kind' l t') := by
  have hvisits := full_build_subjects hkind hdir hrun
  have hvisits' := full_build_subjects hkind' hdir' hrun'
  rw [h, List.map_nil, ← s.visits_subjects, eq_comm, List.map_eq_nil_iff] at hvisits
  rw [h', List.map_nil, ← s'.visits_subjects, eq_comm, List.map_eq_nil_iff] at hvisits'
  exact ⟨hvisits.trans hvisits'.symm, h.trans h'.symm,
    fun id => by rw [build_list, build_list, h, h']⟩

theorem artifacts_of_unlisted_piece {piece : String} (hrel : s.root.isAbsolute = false)
    (hmem : piece ∈ s.root.pieces) (hpiece : ScanBase.isUnlisted piece = true)
    (hkind : s.IsFull kind) (hdir : fs.isDirectory s.root = true)
    (hrun : (build s tools fs kind l t).result.summary.cancelled = false) :
    (build s tools fs kind l t).result.artifacts = [] := by
  obtain ⟨place, hlocate, _⟩ := FileSystem.locate_of_isDirectory hdir
  have hnone : ScanBase.of? fs true s.root = none := by
    rw [ScanBase.of?_of_relative hrel (FileSystem.not_isEmpty_of_locate hlocate),
      ScanBase.foldlM_step_of_isUnlisted hmem hpiece]
    rfl
  have hsubjects := full_build_subjects hkind hdir hrun
  rw [BuildSettings.scan, FileSystem.scan, hnone] at hsubjects
  exact List.map_eq_nil_iff.mp hsubjects

/-- After a leading dot, what is reported is known by no path of names. -/
theorem artifact_of_leading_dot {r : ArtifactReport} {names : Location}
    (hrel : s.root.isAbsolute = false) (hlead : s.root.pieces.head? = some ".")
    (hproper : ∃ piece ∈ s.root.pieces, piece ≠ ".") (hkind : s.IsFull kind)
    (hdir : fs.isDirectory s.root = true)
    (hrun : (build s tools fs kind l t).result.summary.cancelled = false)
    (hr : r ∈ (build s tools fs kind l t).result.artifacts) (hne : names ≠ [])
    (hnamed : ∀ name ∈ names, FileSystem.isName name = true) :
    r.artifact ≠ "/".intercalate names := by
  obtain ⟨place, hlocate, _⟩ := FileSystem.locate_of_isDirectory hdir
  have hmem := List.mem_map_of_mem (f := ArtifactReport.subject) hr
  rw [full_build_subjects hkind hdir hrun] at hmem
  obtain ⟨p, hp, hsubject⟩ := List.mem_filterMap.mp hmem
  obtain ⟨b, hscan, names', hbelow, rfl⟩ := BuildSettings.exists_entry_of_mem_scan hp
  obtain ⟨hshown, habs, hhere, hroot⟩ :=
    ScanBase.shown_of_leading_dot hrel hlocate hlead hproper hscan
  obtain ⟨hentry, hcomponents, _⟩ := hshown.entry hbelow
  have hstepped := Path.up_mem_relativeTo?_of_here (hentry.trans (habs.trans hrel.symm)) hroot
    (Path.components_ne_nil (FileSystem.not_isEmpty_of_locate hshown.locate)) hhere hcomponents
    (ScanBase.mem_namesBelow_iff.mp hbelow).1
  exact BuildSettings.artifact_of_stepped_way hsubject hstepped hne hnamed

end Builds

/-- Full builds of a directory that is given by a relative path, and of the same directory given by
its canonical path, with an output directory given from there. They are alike exactly if the
relative path is spelt plainly and no name on the way to the directory is left out of listings, or
if neither has anything to report. -/
theorem root_spelling_immaterial_iff {T : Type} (tools : Tools T) (fs : FileSystem)
    (spelt root : Path) (rel? : Option Path) (all all' : Bool) (kind kind' : BuildKind)
    (l : ProblemList) (t t' : T) (hrel : spelt.isAbsolute = false)
    (hdir : fs.isDirectory spelt = true) (hroot : fs.canonical spelt = .ok root)
    (hout : ∀ rel ∈ rel?, rel.isAbsolute = false ∧ .up ∉ rel.components)
    (htools : tools.Functional fun _ : Path => ()) :
    let s : BuildSettings := ⟨spelt, rel?.map spelt.join, all⟩
    let s' : BuildSettings := ⟨root, rel?.map root.join, all'⟩
    let pass := build s tools fs kind l t
    let pass' := build s' tools fs kind' l t'
    s.IsFull kind → s'.IsFull kind' →
      pass.result.summary.cancelled = false → pass'.result.summary.cancelled = false →
      (BuildsAlike fs s s' pass pass' ↔
        (spelt.SpeltPlainly ∧ ∀ name ∈ root.names, ScanBase.isUnlisted name = false) ∨
          pass.result.artifacts = [] ∧ pass'.result.artifacts = []) := by
  intro s s' pass pass' hkind hkind' hrun hrun'
  obtain ⟨habs, hup, hlocate, hentry⟩ := FileSystem.canonical_of_directory hdir hroot
  have hdir' : fs.isDirectory root = true := (FileSystem.isDirectory_iff habs hup).mpr hentry
  constructor
  · intro halike
    by_cases hnothing : pass.result.artifacts = []
    · exact .inr ⟨hnothing, halike.reports ▸ hnothing⟩
    obtain ⟨r, hr⟩ := List.exists_mem_of_ne_nil _ hnothing
    have hr' := halike.reports ▸ hr
    refine .inl ⟨⟨?_, ?_⟩, ?_⟩
    · intro hlead
      by_contra hdots
      have hproper : ∃ piece ∈ spelt.pieces, piece ≠ "." := by simpa using hdots
      obtain ⟨_, _, names, hne, hnamed, _, _, hid⟩ :=
        names_of_full_report habs hup hdir' hkind' hrun' hr'
      exact artifact_of_leading_dot (s := s) hrel hlead hproper hkind hdir hrun hr hne hnamed hid
    · intro piece hmem
      by_contra hpiece
      exact hnothing (artifacts_of_unlisted_piece (s := s) hrel hmem (by simpa using hpiece) hkind
        hdir hrun)
    · intro name hmem
      by_contra hname
      have hnone := artifacts_of_isUnlisted (s := s') habs hmem (by simpa using hname) hkind' hdir'
        hrun'
      rw [hnone] at hr'
      cases hr'
  · rintro (⟨hplain, hlisted⟩ | ⟨hnone, hnone'⟩)
    · obtain ⟨b, hscan, hplace, hstands⟩ :=
        ScanBase.standsFor_of_spelt_plainly hrel hlocate hentry hplain
      obtain ⟨b', hscan', hopens, hplace'⟩ :=
        ScanBase.of?_of_directory habs hup hentry hlisted
      have hempty := FileSystem.not_isEmpty_of_locate hlocate
      refine builds_alike_of_scans htools (fun _ _ => rfl) hkind hkind' hdir
        hdir' hrun hrun' hscan hscan' (hplace.trans hplace'.symm) hstands
        (fun names hmem => hopens.standsFor hmem) ?_
      cases rel? with
      | none => rfl
      | some rel =>
          obtain ⟨hrelative, hrelup⟩ := hout rel rfl
          simp only [s, s', Option.map_some, Path.below_join hempty hrelative hrelup,
            Path.below_join (Path.not_isEmpty_of_isAbsolute habs) hrelative hrelup]
    · exact builds_alike_of_nothing hkind hkind' hdir hdir' hrun hrun' hnone hnone'

/-- From the root of the file system a step up stays there: the rule text is reported as below the
directory itself. -/
theorem stepped_root_alike :
    let fs := FileSystem.ofOneRule "rules" (by decide)
    let spelt : Path := ⟨["..", "rules", ""]⟩
    let root : Path := ⟨["", "rules"]⟩
    let rel? : Option Path := some ⟨[".", "target"]⟩
    let s : BuildSettings := ⟨spelt, rel?.map spelt.join, false⟩
    let s' : BuildSettings := ⟨root, rel?.map root.join, false⟩
    let l := ProblemList.empty "drlbuild.problem"
    spelt.isAbsolute = false ∧ fs.isDirectory spelt = true ∧ fs.canonical spelt = .ok root ∧
      (∀ rel ∈ rel?, rel.isAbsolute = false ∧ .up ∉ rel.components) ∧
      acceptingTools.Functional (fun _ : Path => ()) ∧ s.IsFull .full ∧ s'.IsFull .full ∧
      (build s acceptingTools fs .full l ()).result.summary.cancelled = false ∧
      (build s' acceptingTools fs .full l ()).result.summary.cancelled = false ∧
      ⟨"x.drl", some .ruleText, [], false⟩ ∈
        (build s acceptingTools fs .full l ()).result.artifacts ∧
      BuildsAlike fs s s' (build s acceptingTools fs .full l ())
        (build s' acceptingTools fs .full l ()) := by
  intro fs spelt root rel? s s' l
  have hdir : fs.isDirectory spelt = true := by decide
  have hroot : fs.canonical spelt = .ok root := by decide
  have hrel : ∀ rel ∈ rel?, rel.isAbsolute = false ∧ .up ∉ rel.components := by
    rintro rel hmem
    obtain rfl := Option.some.inj hmem
    decide
  have hplain : spelt.SpeltPlainly := ⟨by decide, by decide⟩
  have hrun := build_accepting_not_cancelled s fs .full l
  have hrun' := build_accepting_not_cancelled s' fs .full l
  have halike := (root_spelling_immaterial_iff acceptingTools fs spelt root rel? false false .full
    .full l () () rfl hdir hroot hrel functional_acceptingTools (.inr (.inl rfl)) (.inr (.inl rfl))
    (build_accepting_not_cancelled ..) (build_accepting_not_cancelled ..)).mpr
    (.inl ⟨hplain, by decide⟩)
  have hreport : ⟨"x.drl", some .ruleText, [], false⟩ ∈
      (build s acceptingTools fs .full l ()).result.artifacts := by decide
  exact ⟨rfl, hdir, hroot, hrel, functional_acceptingTools, .inr (.inl rfl), .inr (.inl rfl), hrun,
    hrun', hreport, halike⟩

/-- After a leading dot, the rule text is reported under another identity. -/
theorem dotted_root_not_alike :
    let fs := FileSystem.ofOneRule "rules" (by decide)
    let spelt : Path := ⟨[".", "rules"]⟩
    let root : Path := ⟨["", "rules"]⟩
    let s : BuildSettings := ⟨spelt, none, false⟩
    let s' : BuildSettings := ⟨root, none, false⟩
    let l := ProblemList.empty "drlbuild.problem"
    spelt.isAbsolute = false ∧ fs.isDirectory spelt = true ∧ fs.canonical spelt = .ok root ∧
      acceptingTools.Functional (fun _ : Path => ()) ∧ s.IsFull .full ∧ s'.IsFull .full ∧
      (build s acceptingTools fs .full l ()).result.summary.cancelled = false ∧
      (build s' acceptingTools fs .full l ()).result.summary.cancelled = false ∧
      ⟨"rules/../x.drl", some .ruleText, [], false⟩ ∈
        (build s acceptingTools fs .full l ()).result.artifacts ∧
      ¬ BuildsAlike fs s s' (build s acceptingTools fs .full l ())
        (build s' acceptingTools fs .full l ()) := by
  intro fs spelt root s s' l
  have hreport : ⟨"rules/../x.drl", some .ruleText, [], false⟩ ∈
      (build s acceptingTools fs .full l ()).result.artifacts := by decide
  have hrun := build_accepting_not_cancelled s fs .full l
  have hrun' := build_accepting_not_cancelled s' fs .full l
  refine ⟨rfl, by decide, by decide, functional_acceptingTools, .inr (.inl rfl), .inr (.inl rfl),
    hrun, hrun', hreport, ?_⟩
  intro halike
  have hother : ⟨"rules/../x.drl", some .ruleText, [], false⟩ ∉
      (build s' acceptingTools fs .full l ()).result.artifacts := by decide
  exact hother (halike.reports ▸ hreport)

end RuleBuild
