import RuleBuild.Proofs.IncrementalBuild
import RuleBuild.Proofs.Path.Resolution

/-!
# The identity of a changed file

However a changed file is given, its problems are to be recorded where a full build records them. An
identity keeps the steps up of the path it is made from, so this is so for the spellings that have
none, and for no others.
-/
namespace RuleBuild

/-- Whether a build says once what `r` says, and records its problems there and nowhere else. Of the
artifacts in `known` it may say something too. -/
structure Pass.Renews {T : Type} (pass : Pass ProblemList T) (l : ProblemList) (r : ArtifactReport)
    (known : List String) : Prop where
  once : (pass.result.artifacts.map (·.artifact)).count r.artifact = 1
  reported : ∃ r' ∈ pass.result.artifacts, r'.subject = r.subject ∧
    pass.recorded.store.problems r.artifact = r'.diagnostics
  elsewhere : ∀ id, id ≠ projectId → id ≠ r.artifact → id ∉ known →
    pass.recorded.store.markers[id]? = l.markers[id]?

variable {S T : Type} [ProblemStore S] {s : BuildSettings} {tools : Tools T} {fs : FileSystem}
  {kind : BuildKind} {t : T} {p q : Path} {r : ArtifactReport}

/-- What a full build reports under the identity of a path of the scan, it says of this path. -/
theorem subject?_of_full_report {store : S} (hroot : s.root.isAbsolute = true)
    (hup : .up ∉ s.root.components) (hkind : s.IsFull kind)
    (hrun : (build s tools fs kind store t).result.summary.cancelled = false) (hp : p ∈ s.scan fs)
    (hr : r ∈ (build s tools fs kind store t).result.artifacts)
    (hid : r.artifact = artifactId s.root p) : s.subject? fs p = some r.subject := by
  have hdir := BuildSettings.isDirectory_of_mem_scan hroot hp
  obtain ⟨names, _, hne, hnamed, hreaches, _⟩ := BuildSettings.reaches_of_mem_scan hroot hup hp
  obtain ⟨p', _, names', hne', hnamed', hreaches', hsubject, hid'⟩ :=
    names_of_full_report hroot hup hdir hkind hrun hr
  have hids : "/".intercalate names = "/".intercalate names' := by
    rw [← hreaches.liesBelow.artifactId hroot hne, ← hid, hid']
  have hsame := intercalate_injective hne hne' hnamed hnamed' hids
  rw [hreaches.subject?_congr (hsame ▸ hreaches') hroot hne, hsubject]

/-- A path without a step up that leads to what the scan shows is spoken of as the scan's path. -/
theorem changed_subject?_eq (hroot : s.root.isAbsolute = true) (hup : .up ∉ s.root.components)
    (hp : p ∈ s.scan fs) (hq : q.isAbsolute = true) (hqup : .up ∉ q.components)
    (hsame : fs.locate q = fs.locate p) :
    s.isHidden q = false ∧ s.subject? fs q = s.subject? fs p := by
  obtain ⟨names, _, hne, _, hreaches, _⟩ := BuildSettings.reaches_of_mem_scan hroot hup hp
  have hlocate := hsame.trans hreaches.locate
  have hnames : q.names = s.root.names ++ names := by
    rw [FileSystem.locate_of_isAbsolute hq] at hlocate
    rw [FileSystem.eq_of_walk hlocate (FileSystem.not_up_mem_tail hqup),
      FileSystem.filterMap_tail_eq_names hq, List.nil_append]
  have hleads : q.Reaches fs s.root names := by
    refine ⟨hq, ?_, hlocate⟩
    rw [Path.components_eq_names hq hqup, Path.components_eq_names hroot hup, hnames,
      List.map_append]
    rfl
  refine ⟨?_, hleads.subject?_congr hreaches hroot hne⟩
  rw [hleads.liesBelow.isHidden, ← hreaches.liesBelow.isHidden]
  have hvisible := (List.mem_filter.mp hp).2
  simp only [Bool.and_eq_true, Bool.not_eq_true'] at hvisible
  exact hvisible.2

/-- A build that says of the artifacts, each once, what other reports say renews any of these. -/
theorem renews_of_subjects {l : ProblemList} (reports : List ArtifactReport)
    (hsubjects : (build s tools fs kind l t).result.artifacts.map ArtifactReport.subject =
      reports.map ArtifactReport.subject)
    (hnodup : (reports.map (·.artifact)).Nodup) (hr : r ∈ reports) :
    (build s tools fs kind l t).Renews l r (reports.map (·.artifact)) := by
  have hids : (build s tools fs kind l t).result.artifacts.map (·.artifact) =
      reports.map (·.artifact) := by
    have hfirsts := congrArg (List.map (·.1)) hsubjects
    rwa [List.map_map, List.map_map] at hfirsts
  rw [← hids] at hnodup ⊢
  have hmem := List.mem_map_of_mem (f := ArtifactReport.subject) hr
  rw [← hsubjects] at hmem
  obtain ⟨r', hr', hsubject⟩ := List.mem_map.mp hmem
  have hid : r'.artifact = r.artifact := congrArg (·.1) hsubject
  refine ⟨?_, ⟨r', hr', hsubject, ?_⟩, ?_⟩
  · rw [← hid]
    exact List.count_eq_one_of_mem hnodup (List.mem_map_of_mem hr')
  · rw [← hid]
    exact build_problems_of_nodup hnodup hr'
  · intro id hproject _ hunknown
    exact build_markers_of_not_reported hproject fun q hq heq =>
      hunknown (heq ▸ List.mem_map_of_mem hq)

/-- An incremental build of one path, which leads to a file that a full build reports, and which may
be given from anywhere. It renews this report, and touches nothing else that is not the project's,
exactly if the path has no step up, or if everything is to be built whatever has changed. -/
theorem changed_file_renewed_iff (s : BuildSettings) (tools : Tools T) (fs : FileSystem)
    (kind : BuildKind) (l : ProblemList) (store : S) (t t' : T) (changed : String) (p : Path)
    (r : ArtifactReport) (hroot : s.root.isAbsolute = true) (hup : .up ∉ s.root.components)
    (hkind : s.IsFull kind) :
    let q := Path.ofString changed
    let part := build s tools fs (.incremental (some [q])) l t
    let whole := build s tools fs kind store t'
    part.result.summary.cancelled = false → whole.result.summary.cancelled = false →
      p ∈ s.scan fs → r ∈ whole.result.artifacts → r.artifact = artifactId s.root p →
      fs.locate (s.root.join q) = fs.locate p →
      (part.Renews l r (if s.buildAll then whole.result.artifacts.map (·.artifact) else []) ↔
        s.buildAll = true ∨ .up ∉ q.components) := by
  intro q part whole hpart hwhole hp hr hid hsame
  have hne : q.pieces ≠ [] := Path.ofString_pieces_ne_nil changed
  have hdir := BuildSettings.isDirectory_of_mem_scan hroot hp
  cases hall : s.buildAll with
  | true =>
      refine iff_of_true ?_ (.inl rfl)
      have hsubjects : part.result.artifacts.map ArtifactReport.subject =
          whole.result.artifacts.map ArtifactReport.subject := by
        rw [full_build_subjects (.inl hall) hdir hpart, full_build_subjects hkind hdir hwhole]
      exact renews_of_subjects _ hsubjects (full_build_artifacts hroot hup hdir hkind hwhole).1 hr
  | false =>
      have hcandidates := BuildSettings.candidates?_changed hall hdir [q]
      have hsubjects := build_subjects hcandidates hpart
      have habs := Path.isAbsolute_root_join hroot hne
      rw [← Path.up_mem_components_join_iff hroot hup hne]
      simp only [Bool.false_eq_true, ↓reduceIte, false_or]
      constructor
      · rintro ⟨_, ⟨r', hr', hsubject, _⟩, _⟩ hqup
        have hmem := List.mem_map_of_mem (f := ArtifactReport.subject) hr'
        rw [hsubjects] at hmem
        obtain ⟨p', hp', hsubject'⟩ := List.mem_filterMap.mp hmem
        obtain ⟨q', hq', rfl, _⟩ := BuildSettings.mem_changedPaths_iff.mp hp'
        obtain rfl := List.mem_singleton.mp hq'
        -- The changed path is known by a text with a step up in it, the file by its names.
        obtain ⟨names, _, hnames, hnamed, hreaches, _⟩ :=
          BuildSettings.reaches_of_mem_scan hroot hup hp
        apply BuildSettings.artifact_of_stepped_way hsubject' (Path.up_mem_relativeTo? hup hqup)
          hnames hnamed
        rw [← hreaches.liesBelow.artifactId hroot hnames, ← hid]
        exact congrArg (·.1) hsubject
      · intro hqup
        obtain ⟨hvisible, hspoken⟩ := changed_subject?_eq hroot hup hp habs hqup hsame
        have hsubject := subject?_of_full_report hroot hup hkind hwhole hp hr hid
        have hchanged : s.changedPaths [q] = [s.root.join q] := by
          simp [BuildSettings.changedPaths, hvisible]
        rw [hchanged, List.filterMap_cons_some (hspoken.trans hsubject), List.filterMap_nil]
          at hsubjects
        have hrenews := renews_of_subjects [r] hsubjects (by simp) List.mem_cons_self
        exact ⟨hrenews.once, hrenews.reported, fun id hproject hother _ =>
          hrenews.elsewhere id hproject hother (by simpa using hother)⟩

/-- The rule text, given with a dot and a doubled slash, is known as a full build knows it. -/
theorem dotted_change_renewed :
    let s := BuildSettings.ofDirectory "rules" none
    let fs := FileSystem.ofOneRule "rules" (by decide)
    let q := Path.ofString "/.//rules/./x.drl"
    let l := (ProblemList.empty "drlbuild.problem").push "x.drl" (.error "stale" none)
    let p : Path := ⟨["", "rules", "x.drl"]⟩
    let r : ArtifactReport := ⟨"x.drl", some .ruleText, [], false⟩
    s.root.isAbsolute = true ∧ .up ∉ s.root.components ∧ s.IsFull .full ∧
      (build s acceptingTools fs (.incremental (some [q])) l ()).result.summary.cancelled = false ∧
      (build s acceptingTools fs .full l ()).result.summary.cancelled = false ∧ p ∈ s.scan fs ∧
      r ∈ (build s acceptingTools fs .full l ()).result.artifacts ∧
      r.artifact = artifactId s.root p ∧ fs.locate (s.root.join q) = fs.locate p ∧
      (build s acceptingTools fs (.incremental (some [q])) l ()).Renews l r [] := by
  intro s fs q l p r
  obtain ⟨hroot, hup, _⟩ := BuildSettings.root_ofDirectory "rules" (by decide) none
  have hpart := build_accepting_not_cancelled s fs (.incremental (some [q])) l
  have hwhole := build_accepting_not_cancelled s fs .full l
  have hp : p ∈ s.scan fs := by decide
  have hr : r ∈ (build s acceptingTools fs .full l ()).result.artifacts := by decide
  have hid : r.artifact = artifactId s.root p := by decide
  have hsame : fs.locate (s.root.join q) = fs.locate p := by decide
  have hrenews := (changed_file_renewed_iff s acceptingTools fs .full l l () ()
    "/.//rules/./x.drl" p r hroot hup (.inr (.inl rfl)) (build_accepting_not_cancelled ..) hwhole hp
    hr hid hsame).mpr (.inr (by decide))
  exact ⟨hroot, hup, .inr (.inl rfl), hpart, hwhole, hp, hr, hid, hsame, hrenews⟩

/-- Given with a step up, the same rule text is known by another identity. -/
theorem stepped_change_not_renewed :
    let s := BuildSettings.ofDirectory "rules" none
    let fs := FileSystem.ofOneRule "rules" (by decide)
    let q := Path.ofString "../rules/x.drl"
    let l := ProblemList.empty "drlbuild.problem"
    let p : Path := ⟨["", "rules", "x.drl"]⟩
    let r : ArtifactReport := ⟨"x.drl", some .ruleText, [], false⟩
    s.root.isAbsolute = true ∧ .up ∉ s.root.components ∧ s.IsFull .full ∧ s.buildAll = false ∧
      (build s acceptingTools fs (.incremental (some [q])) l ()).result.summary.cancelled = false ∧
      (build s acceptingTools fs .full l ()).result.summary.cancelled = false ∧ p ∈ s.scan fs ∧
      r ∈ (build s acceptingTools fs .full l ()).result.artifacts ∧
      r.artifact = artifactId s.root p ∧ fs.locate (s.root.join q) = fs.locate p ∧
      ⟨"../rules/x.drl", some .ruleText, [], false⟩ ∈
        (build s acceptingTools fs (.incremental (some [q])) l ()).result.artifacts ∧
      ¬ (build s acceptingTools fs (.incremental (some [q])) l ()).Renews l r [] := by
  intro s fs q l p r
  obtain ⟨hroot, hup, _⟩ := BuildSettings.root_ofDirectory "rules" (by decide) none
  have hpart := build_accepting_not_cancelled s fs (.incremental (some [q])) l
  have hwhole := build_accepting_not_cancelled s fs .full l
  refine ⟨hroot, hup, .inr (.inl rfl), rfl, hpart, hwhole, by decide, by decide, by decide,
    by decide, by decide, ?_⟩
  rintro ⟨honce, _, _⟩
  have hnone : ((build s acceptingTools fs (.incremental (some [q])) l ()).result.artifacts.map
      (·.artifact)).count r.artifact = 0 := by decide
  rw [hnone] at honce
  cases honce

end RuleBuild
