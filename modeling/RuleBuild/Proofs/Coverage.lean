import RuleBuild.Proofs.Path.Identity
import RuleBuild.Proofs.Tour

/-!
# What a build has something to say of

Below the root, a build passes over what is hidden, what lies in the output directory and what is no
artifact. Which of these a path is, its names alone decide; the rest is covered by the build.
-/
namespace RuleBuild

/-- The names below the root that a build covers: those of an artifact, none hidden. Seen from the
root, the output directory is not on the way to it, unless it is the root itself. -/
structure BuildSettings.Covers (s : BuildSettings) (names : Location) (kind : ArtifactKind) :
    Prop where
  extension : ∃ name, names.getLast? = some name ∧
    ∃ stem : String, stem ≠ "" ∧ name = stem ++ "." ++ kind.extension
  visible : ∀ name ∈ names, name.toList.head? ≠ some '.'
  outside : ∀ dir ∈ s.outputDir, Path.below s.root dir ≠ [] →
    ¬ Path.below s.root dir <+: names.map .name

theorem ArtifactKind.ofFileName_getLast?_iff (names : Location) (kind : ArtifactKind) :
    names.getLast?.bind ofFileName = some kind ↔
      ∃ name, names.getLast? = some name ∧
        ∃ stem : String, stem ≠ "" ∧ name = stem ++ "." ++ kind.extension := by
  simp only [Option.bind_eq_some_iff, ofFileName_eq_some_iff]

namespace BuildSettings

variable {s : BuildSettings} {p : Path} {names : Location}

theorem isHidden_of_below (h : Path.below s.root p = names.map .name) :
    s.isHidden p = names.any ScanBase.isDotName := by
  rw [isHidden, h, List.any_map]
  rfl

/-- What is said of a path that goes up on the way from the root is said under no path of names. -/
theorem artifact_of_stepped_way {fs : FileSystem} {x : String × Option ArtifactKind × Bool}
    (hx : s.subject? fs p = some x) (hup : .up ∈ (Path.relativeTo? s.root p).getD p.components)
    (hne : names ≠ []) (hnamed : ∀ name ∈ names, FileSystem.isName name = true) :
    x.1 ≠ "/".intercalate names := by
  obtain ⟨a, ha, hid⟩ := subject?_eq_some hx
  obtain ⟨kind, _, rfl⟩ := Option.map_eq_some_iff.mp ha
  rw [hid]
  exact idOfComponents_ne_intercalate hup hne hnamed

end BuildSettings

namespace Path.LiesBelow

variable {s : BuildSettings} {p : Path} {names : Location}

theorem isHidden (h : p.LiesBelow s.root names) :
    s.isHidden p = names.any ScanBase.isDotName :=
  BuildSettings.isHidden_of_below h.below

theorem isHidden_eq_false_iff (h : p.LiesBelow s.root names) :
    s.isHidden p = false ↔ ∀ name ∈ names, name.toList.head? ≠ some '.' := by
  rw [h.isHidden]
  simp [ScanBase.isDotName]

theorem isExcluded_eq_false_iff (h : p.LiesBelow s.root names) :
    s.isExcluded p = false ↔ ∀ dir ∈ s.outputDir, Path.below s.root dir ≠ [] →
      ¬ Path.below s.root dir <+: names.map .name := by
  rw [BuildSettings.isExcluded]
  cases s.outputDir with
  | none => simp
  | some dir => simp [h.below, ← List.isPrefixOf_iff_prefix]

/-- Whatever is said of a path is said under its names. -/
theorem artifact_of_subject? (h : p.LiesBelow s.root names) (hroot : s.root.isAbsolute = true)
    (hne : names ≠ []) {fs : FileSystem} {x : String × Option ArtifactKind × Bool}
    (hx : s.subject? fs p = some x) : x.1 = "/".intercalate names := by
  obtain ⟨a, ha, hid⟩ := BuildSettings.subject?_eq_some hx
  obtain ⟨kind, _, rfl⟩ := Option.map_eq_some_iff.mp ha
  rw [hid]
  exact h.artifactId hroot hne

/-- A path that is not hidden is said something of exactly if its names are covered. What is said
depends on whether it leads anywhere. -/
theorem subject?_eq_some_iff (h : p.LiesBelow s.root names) (hroot : s.root.isAbsolute = true)
    (hne : names ≠ []) (hvisible : s.isHidden p = false) (fs : FileSystem)
    (x : String × Option ArtifactKind × Bool) :
    s.subject? fs p = some x ↔ ∃ kind, s.Covers names kind ∧
      x = if fs.hasPath p then ("/".intercalate names, some kind, false)
        else ("/".intercalate names, none, true) := by
  have hdots := h.isHidden_eq_false_iff.mp hvisible
  unfold BuildSettings.subject? Artifact.ofPath?
  rw [h.artifactId hroot hne, h.ofPath? hne]
  cases hout : s.isExcluded p with
  | true =>
      simp only [↓reduceIte, reduceCtorEq, false_iff]
      rintro ⟨kind, hcovers, _⟩
      simp [h.isExcluded_eq_false_iff.mpr hcovers.outside] at hout
  | false =>
      have houtside := h.isExcluded_eq_false_iff.mp hout
      simp only [Bool.false_eq_true, ↓reduceIte, Option.map_map, Option.map_eq_some_iff,
        Function.comp_apply, ArtifactKind.ofFileName_getLast?_iff]
      constructor
      · rintro ⟨kind, hext, rfl⟩
        exact ⟨kind, ⟨hext, hdots, houtside⟩, rfl⟩
      · rintro ⟨kind, hcovers, rfl⟩
        exact ⟨kind, hcovers.extension, rfl⟩

end Path.LiesBelow

/-- A path that a build takes for what `names` lead to below its root, which lies at `place`. -/
structure Path.StandsFor (p : Path) (fs : FileSystem) (root : Path) (place names : Location) :
    Prop where
  below : Path.below root p = names.map .name
  kind : ArtifactKind.ofPath? p = names.getLast?.bind ArtifactKind.ofFileName
  identity : artifactId root p = "/".intercalate names
  locate : fs.locate p = .ok (place ++ names)

namespace Path.StandsFor

variable {fs : FileSystem} {s s' : BuildSettings} {root p p' : Path} {place names : Location}

theorem of_components_eq (habs : p.isAbsolute = root.isAbsolute)
    (h : p.components = root.components ++ names.map .name) (hne : names ≠ [])
    (hlocate : fs.locate p = .ok (place ++ names)) : p.StandsFor fs root place names where
  below := below_of_components_eq h (by simp)
  kind := ofPath?_of_components_eq h hne
  identity := artifactId_of_components_eq habs h hne
  locate := hlocate

theorem hasPath (h : p.StandsFor fs root place names) : fs.hasPath p = true := by
  rw [FileSystem.hasPath, h.locate]
  rfl

theorem find? (h : p.StandsFor fs root place names) : fs.find? p = fs.at? (place ++ names) := by
  rw [FileSystem.find?, h.locate]

theorem isHidden (h : p.StandsFor fs s.root place names) :
    s.isHidden p = names.any ScanBase.isDotName :=
  BuildSettings.isHidden_of_below h.below

/-- Seen from two roots, what stands for the same is spoken of alike, if the output directories
look the same from there. -/
theorem subject?_congr (h : p.StandsFor fs s.root place names)
    (h' : p'.StandsFor fs s'.root place names)
    (hout : s.outputDir.map (Path.below s.root) = s'.outputDir.map (Path.below s'.root)) :
    s.subject? fs p = s'.subject? fs p' := by
  have hexcluded : s.isExcluded p = s'.isExcluded p' := by
    unfold BuildSettings.isExcluded
    rw [h.below, h'.below]
    cases hdir : s.outputDir with
    | none =>
        rw [hdir, Option.map_none, eq_comm, Option.map_eq_none_iff] at hout
        rw [hout]
    | some dir =>
        rw [hdir, Option.map_some, eq_comm, Option.map_eq_some_iff] at hout
        obtain ⟨dir', hdir', hbelow⟩ := hout
        rw [hdir']
        simp only [hbelow]
  unfold BuildSettings.subject? Artifact.ofPath?
  rw [hexcluded, h.kind, h'.kind, h.identity, h'.identity, h.hasPath, h'.hasPath]
  cases names.getLast?.bind ArtifactKind.ofFileName with
  | none => rfl
  | some kind => rfl

end Path.StandsFor
end RuleBuild
