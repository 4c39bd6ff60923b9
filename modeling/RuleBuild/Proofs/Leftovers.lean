import RuleBuild.Proofs.BuildMarkers
import RuleBuild.Proofs.FullBuild
import RuleBuild.Proofs.ProblemList.Totals

/-!
# What a full build leaves of older problems

A full build renews the problems of what it reports and drops those of the project. Problems of any
other artifact, such as one whose file is gone, stay; so the list shows the build and nothing older
exactly if there are none of them.
-/
namespace RuleBuild

/-- Whether a list shows the result of a build and nothing else. -/
structure ProblemList.Reflects (l : ProblemList) (r : BuildResult) : Prop where
  sorted : l.artifacts.Pairwise (· < ·)
  artifacts : ∀ id, id ∈ l.artifacts ↔
    ∃ report ∈ r.artifacts, report.artifact = id ∧ report.diagnostics ≠ []
  errors : l.errorCount = r.summary.errors
  current : ∀ id, (∀ report ∈ r.artifacts, report.artifact ≠ id) →
    ∀ m ∈ l.markersOf id, m.category ≠ l.category

/-- A full build that is not cancelled and whose traversal does not fail leaves a list that shows
its result and nothing older exactly if nothing that it does not report had problems of the tool's
own before, the project apart. -/
theorem full_build_reflected_iff {T : Type} (s : BuildSettings) (tools : Tools T) (fs : FileSystem)
    (kind : BuildKind) (l : ProblemList) (t : T) (hroot : s.root.isAbsolute = true)
    (hup : .up ∉ s.root.components) (hdir : fs.isDirectory s.root = true) (hkind : s.IsFull kind)
    (hcancelled : (build s tools fs kind l t).result.summary.cancelled = false) :
    (build s tools fs kind l t).recorded.store.Reflects (build s tools fs kind l t).result ↔
      ∀ id, id ≠ projectId →
        (∀ r ∈ (build s tools fs kind l t).result.artifacts, r.artifact ≠ id) →
        ∀ m ∈ l.markersOf id, m.category ≠ l.category := by
  obtain ⟨hnodup, hproject⟩ := full_build_artifacts hroot hup hdir hkind hcancelled
  constructor
  · intro h id hid hreports
    rw [← ProblemList.problems_eq_nil_iff, ← build_problems_of_not_reported hid hreports,
      ProblemList.problems_eq_nil_iff]
    exact h.current id hreports
  · intro hstale
    have hothers : ∀ id, (∀ r ∈ (build s tools fs kind l t).result.artifacts, r.artifact ≠ id) →
        (build s tools fs kind l t).recorded.store.problems id = [] := by
      intro id hreports
      by_cases hid : id = projectId
      · rw [hid]
        exact build_problems_project hproject
      · rw [build_problems_of_not_reported hid hreports, ProblemList.problems_eq_nil_iff]
        exact hstale id hid hreports
    have hreported : ∀ id, (build s tools fs kind l t).recorded.store.problems id ≠ [] →
        ∃ r ∈ (build s tools fs kind l t).result.artifacts, r.artifact = id := by
      intro id hproblems
      by_contra hnone
      exact hproblems (hothers id fun r hr heq => hnone ⟨r, hr, heq⟩)
    refine ⟨ProblemList.pairwise_artifacts _, ?_, ?_, ?_⟩
    · intro id
      rw [ProblemList.mem_artifacts_iff]
      constructor
      · intro hproblems
        obtain ⟨r, hr, rfl⟩ := hreported id hproblems
        rw [build_problems_of_nodup hnodup hr] at hproblems
        exact ⟨r, hr, rfl, hproblems⟩
      · rintro ⟨r, hr, rfl, hdiagnostics⟩
        rwa [build_problems_of_nodup hnodup hr]
    · rw [(build_isCounted s tools fs kind l t).errors, ProblemList.errorCount_eq _ hnodup
        fun id hproblems => List.mem_map.mpr (hreported id hproblems), List.flatMap_map]
      congr 1
      apply List.flatMap_congr
      intro r hr
      exact build_problems_of_nodup hnodup hr
    · intro id hreports
      rw [← ProblemList.problems_eq_nil_iff]
      exact hothers id hreports

/-- The full build of a directory with one rule text, on a list with one stale problem. -/
def buildOverStale (artifact : String) : Pass ProblemList Unit :=
  build (.ofDirectory "rules" none) acceptingTools (.ofOneRule "rules" (by decide)) .full
    ((ProblemList.empty "drlbuild.problem").push artifact (.error "stale" none)) ()

theorem stale_problem_renewed :
    (BuildSettings.ofDirectory "rules" none).root.isAbsolute = true ∧
      .up ∉ (BuildSettings.ofDirectory "rules" none).root.components ∧
      (FileSystem.ofOneRule "rules" (by decide)).isDirectory
        (BuildSettings.ofDirectory "rules" none).root = true ∧
      (BuildSettings.ofDirectory "rules" none).IsFull .full ∧
      (buildOverStale "x.drl").result.summary.cancelled = false ∧
      (buildOverStale "x.drl").recorded.store.Reflects (buildOverStale "x.drl").result := by
  obtain ⟨hroot, hup, _, hdir⟩ := BuildSettings.root_ofDirectory "rules" (by decide) none
  have hkind : (BuildSettings.ofDirectory "rules" none).IsFull .full := .inr (.inl rfl)
  have hcancelled : (buildOverStale "x.drl").result.summary.cancelled = false := by decide
  refine ⟨hroot, hup, hdir, hkind, hcancelled, ?_⟩
  refine (full_build_reflected_iff _ acceptingTools _ .full _ () hroot hup hdir hkind
    hcancelled).mpr ?_
  intro id _ hreports
  have hreport : ⟨"x.drl", some .ruleText, [], false⟩ ∈ (buildOverStale "x.drl").result.artifacts :=
    by decide
  have hid : "x.drl" ≠ id := hreports _ hreport
  rw [ProblemList.markersOf_push, if_neg hid]
  intro m hm
  simp [ProblemList.markersOf, ProblemList.empty] at hm

/-- The problem of a file that is gone survives a full build. -/
theorem stale_problem_survives :
    (BuildSettings.ofDirectory "rules" none).root.isAbsolute = true ∧
      .up ∉ (BuildSettings.ofDirectory "rules" none).root.components ∧
      (FileSystem.ofOneRule "rules" (by decide)).isDirectory
        (BuildSettings.ofDirectory "rules" none).root = true ∧
      (BuildSettings.ofDirectory "rules" none).IsFull .full ∧
      (buildOverStale "gone.drl").result.summary.cancelled = false ∧
      (FileSystem.ofOneRule "rules" (by decide)).hasPath ⟨["", "rules", "gone.drl"]⟩ = false ∧
      ¬ (buildOverStale "gone.drl").recorded.store.Reflects (buildOverStale "gone.drl").result := by
  obtain ⟨hroot, hup, _, hdir⟩ := BuildSettings.root_ofDirectory "rules" (by decide) none
  refine ⟨hroot, hup, hdir, .inr (.inl rfl), by decide, by decide, ?_⟩
  intro h
  have hshown : "gone.drl" ∈ (buildOverStale "gone.drl").recorded.store.artifacts := by decide
  obtain ⟨r, hr, hid, _⟩ := (h.artifacts "gone.drl").mp hshown
  have hnone : ∀ r ∈ (buildOverStale "gone.drl").result.artifacts, r.artifact ≠ "gone.drl" := by
    decide
  exact hnone r hr hid

end RuleBuild
