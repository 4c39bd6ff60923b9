import RuleBuild.Proofs.FullBuild
import RuleBuild.Proofs.Path.Resolution

/-!
# What the output directory keeps from being built

A full build skips what lies in the output directory, unless that is the root. The check compares
components below the root, so an output directory spelt with a step up excludes nothing, and neither
does one that the root itself lies in.
-/
namespace RuleBuild

namespace BuildSettings

variable {s : BuildSettings} {fs : FileSystem} {p : Path}

theorem isExcluded_eq_false_of_subject? {x : String × Option ArtifactKind × Bool}
    (h : s.subject? fs p = some x) : s.isExcluded p = false := by
  unfold subject? at h
  split at h
  · cases h
  · rename_i hkept
    simpa using hkept

end BuildSettings

variable {S T : Type} [ProblemStore S]

/-- A full build that is not cancelled passes over what is excluded, and over nothing else that the
scan shows. -/
theorem full_build_skips_iff {s : BuildSettings} {tools : Tools T} {fs : FileSystem}
    {kind : BuildKind} {store : S} {t : T} {p : Path} (hroot : s.root.isAbsolute = true)
    (hup : .up ∉ s.root.components) (hkind : s.IsFull kind)
    (hcancelled : (build s tools fs kind store t).result.summary.cancelled = false)
    (hp : p ∈ s.scan fs) :
    (∀ r ∈ (build s tools fs kind store t).result.artifacts,
        r.artifact ≠ artifactId s.root p) ↔ s.isExcluded p = true := by
  have hdir := BuildSettings.isDirectory_of_mem_scan hroot hp
  have hsubjects := full_build_subjects hkind hdir hcancelled
  obtain ⟨names, artifactKind, hne, hnamed, hreaches, hartifact⟩ :=
    BuildSettings.reaches_of_mem_scan hroot hup hp
  constructor
  · intro hskipped
    by_contra hkept
    have hsubject : s.subject? fs p = some (artifactId s.root p, some artifactKind, false) := by
      rw [BuildSettings.subject?, if_neg hkept, hartifact, Option.map_some, hreaches.hasPath,
        if_pos rfl]
    have hmem := List.mem_filterMap.mpr ⟨p, hp, hsubject⟩
    rw [← hsubjects] at hmem
    obtain ⟨r, hr, hrsubject⟩ := List.mem_map.mp hmem
    exact hskipped r hr (congrArg (·.1) hrsubject)
  · intro hexcluded r hr heq
    obtain ⟨_, _, names', hne', hnamed', hreaches', hsubject, hid⟩ :=
      names_of_full_report hroot hup hdir hkind hcancelled hr
    -- A report on the identity of `p` is one on the file of its names.
    rw [heq, hreaches.liesBelow.artifactId hroot hne] at hid
    have hsame := intercalate_injective hne hne' hnamed hnamed' hid
    rw [← hreaches.subject?_congr (hsame ▸ hreaches') hroot hne] at hsubject
    rw [BuildSettings.isExcluded_eq_false_of_subject? hsubject] at hexcluded
    cases hexcluded

/-- An artifact that the scan of a full build shows is skipped exactly if it lies in the output
directory as that resolves, and that is not the root: so it is for this artifact unless the output
directory is spelt with a step up or the root lies in it. -/
theorem output_directory_skipped_iff (s : BuildSettings) (tools : Tools T) (fs : FileSystem)
    (kind : BuildKind) (store : S) (t : T) (dir : String) (p : Path)
    (hroot : s.root.isAbsolute = true) (hup : .up ∉ s.root.components)
    (hout : s.outputDir = some (s.root.join (.ofString dir))) (hkind : s.IsFull kind)
    (hcancelled : (build s tools fs kind store t).result.summary.cancelled = false)
    (hp : p ∈ s.scan fs) :
    let out := (s.root.join (.ofString dir)).resolved
    ((∀ r ∈ (build s tools fs kind store t).result.artifacts,
          r.artifact ≠ artifactId s.root p) ↔ out ≠ s.root.names ∧ out <+: p.names) ↔
      (out ≠ s.root.names ∧ out <+: p.names →
        .up ∉ (Path.ofString dir).components ∧ s.root.names <+: out) := by
  intro out
  have hne := Path.ofString_pieces_ne_nil dir
  obtain ⟨names, _, _, _, hreaches, _⟩ := BuildSettings.reaches_of_mem_scan hroot hup hp
  have hexcluded : s.isExcluded p = true ↔
      (out ≠ s.root.names ∧ out <+: p.names) ∧
        .up ∉ (Path.ofString dir).components ∧ s.root.names <+: out := by
    rw [← Path.up_mem_components_join_iff hroot hup hne, hreaches.liesBelow.names_eq,
      ← Path.below_isPrefix_names_iff hroot hup (Path.isAbsolute_root_join hroot hne),
      BuildSettings.isExcluded, hout, hreaches.liesBelow.below]
    simp
  rw [full_build_skips_iff hroot hup hkind hcancelled hp, hexcluded]
  exact and_iff_left_iff_imp

/-- The build of everything, with an output directory as it is spelt. -/
def BuildSettings.withOutput (dir : String) : BuildSettings :=
  ⟨⟨["", ""]⟩, some (Path.join ⟨["", ""]⟩ (.ofString dir)), false⟩

def ruleBelowSlash : Path := ⟨["", "", "rules", "x.drl"]⟩

/-- The output directory in which the only rule text lies is skipped with it. -/
theorem dotted_output_directory_skipped :
    let s := BuildSettings.withOutput "./rules/."
    let fs := FileSystem.ofOneRule "rules" (by decide)
    let l := ProblemList.empty "drlbuild.problem"
    s.root.isAbsolute = true ∧ .up ∉ s.root.components ∧
      s.outputDir = some (s.root.join (.ofString "./rules/.")) ∧ s.IsFull .full ∧
      (build s acceptingTools fs .full l ()).result.summary.cancelled = false ∧
      ruleBelowSlash ∈ s.scan fs ∧
      ∀ r ∈ (build s acceptingTools fs .full l ()).result.artifacts,
        r.artifact ≠ artifactId s.root ruleBelowSlash := by
  intro s fs l
  have hcancelled := build_accepting_not_cancelled s fs .full l
  have hp : ruleBelowSlash ∈ s.scan fs := by decide
  have hskips := (output_directory_skipped_iff s acceptingTools fs .full l () "./rules/."
    ruleBelowSlash rfl (by decide) rfl (.inr (.inl rfl)) hcancelled hp).mpr fun _ => by decide
  exact ⟨rfl, by decide, rfl, .inr (.inl rfl), hcancelled, hp, hskips.mpr (by decide)⟩

/-- Spelt with a step up, the same output directory is not skipped. -/
theorem stepped_output_directory_built :
    let s := BuildSettings.withOutput "a/../rules"
    let fs := FileSystem.ofOneRule "rules" (by decide)
    let l := ProblemList.empty "drlbuild.problem"
    let out := (s.root.join (.ofString "a/../rules")).resolved
    s.root.isAbsolute = true ∧ .up ∉ s.root.components ∧
      s.outputDir = some (s.root.join (.ofString "a/../rules")) ∧ s.IsFull .full ∧
      (build s acceptingTools fs .full l ()).result.summary.cancelled = false ∧
      ruleBelowSlash ∈ s.scan fs ∧
      ¬ ((∀ r ∈ (build s acceptingTools fs .full l ()).result.artifacts,
          r.artifact ≠ artifactId s.root ruleBelowSlash) ↔
        out ≠ s.root.names ∧ out <+: ruleBelowSlash.names) := by
  intro s fs l out
  have hcancelled := build_accepting_not_cancelled s fs .full l
  refine ⟨rfl, by decide, rfl, .inr (.inl rfl), hcancelled, by decide, ?_⟩
  intro hskips
  have hout : out ≠ s.root.names ∧ out <+: ruleBelowSlash.names := by decide
  have hreport : ⟨"rules/x.drl", some .ruleText, [], false⟩ ∈
      (build s acceptingTools fs .full l ()).result.artifacts := by decide
  exact hskips.mpr hout _ hreport (by decide)

end RuleBuild
