import RuleBuild.Proofs.BuildMarkers
import RuleBuild.Proofs.FullBuild
import RuleBuild.Proofs.ProblemList.Totals

/-!
# Incremental builds beside full builds

A full build finds its files in a scan, an incremental one is given them. On a changed path that
leads to a file the two agree, unless the scan begins at a root that listings leave out; a changed
path that leads nowhere is reported as removed, and its problems are dropped.
-/
namespace RuleBuild

/-! ## Changed paths -/

namespace Path.GivenBelow

variable {fs : FileSystem} {root q : Path} {names : Location}

theorem liesBelow (h : q.GivenBelow root names) (hroot : root.isAbsolute = true) :
    (root.join q).LiesBelow root names :=
  (h.join hroot).1

theorem exists_last (h : q.GivenBelow root names) (hroot : root.isAbsolute = true) :
    ∃ name, (root.join q).pieces.getLast? = some name ∧ FileSystem.isName name = true := by
  rw [(h.join hroot).2, List.getLast?_eq_some_getLast h.ne_nil]
  exact ⟨_, rfl, h.named _ (List.getLast_mem h.ne_nil)⟩

theorem hasPath_iff (h : q.GivenBelow root names) (hroot : root.isAbsolute = true)
    (hup : .up ∉ root.components) :
    fs.hasPath (root.join q) = true ↔ (fs.at? (root.names ++ names)).isSome = true := by
  have hlies := h.liesBelow hroot
  obtain ⟨name, hlast, hname⟩ := h.exists_last hroot
  rw [FileSystem.hasPath_iff_of_last (hlies.noUp hup) hlast hname,
    FileSystem.origin_of_isAbsolute hlies.absolute, List.nil_append, hlies.names_eq]

theorem reaches (h : q.GivenBelow root names) (hroot : root.isAbsolute = true)
    (hup : .up ∉ root.components) (hsome : (fs.at? (root.names ++ names)).isSome = true) :
    (root.join q).Reaches fs root names := by
  have hlies := h.liesBelow hroot
  obtain ⟨name, hlast, hname⟩ := h.exists_last hroot
  have hplace : fs.origin (root.join q) ++ (root.join q).names = root.names ++ names := by
    rw [FileSystem.origin_of_isAbsolute hlies.absolute, List.nil_append, hlies.names_eq]
  rw [← hplace] at hsome
  refine ⟨hlies.absolute, hlies.components, ?_⟩
  rw [FileSystem.locate_of_last (hlies.noUp hup) hlast hname hsome, hplace]

end Path.GivenBelow

theorem BuildSettings.mem_changedPaths_iff {s : BuildSettings} {changed : List Path} {p : Path} :
    p ∈ s.changedPaths changed ↔ ∃ q ∈ changed, s.root.join q = p ∧ s.isHidden p = false := by
  simp only [changedPaths, List.mem_filter, List.mem_map, Bool.not_eq_eq_eq_not, Bool.not_true]
  constructor
  · rintro ⟨⟨q, hq, hjoin⟩, hvisible⟩
    exact ⟨q, hq, hjoin, hvisible⟩
  · rintro ⟨q, hq, hjoin, hvisible⟩
    exact ⟨⟨q, hq, hjoin⟩, hvisible⟩

/-! ## Tools without a memory -/

/-- Tools whose results are settled by the source and the artifact, whose path they know by what
`view` shows of it. -/
structure Tools.Functional {T α : Type} (tools : Tools T) (view : Path → α) : Prop where
  compile : ∃ f : String → String → ArtifactKind → α → Attempt Outcome,
    ∀ text a t, (tools.compile text a t).1 = f text a.id a.kind (view a.path)
  convert : ∀ c ∈ tools.convert, ∃ f : Bytes → String → ArtifactKind → α → Attempt String,
    ∀ bytes a t, (c bytes a t).1 = f bytes a.id a.kind (view a.path)

namespace Tools.Functional

variable {T α : Type} {tools : Tools T} {view : Path → α} {s : BuildSettings} {fs : FileSystem}

theorem source (h : tools.Functional view) {p p' : Path} (hview : view p = view p')
    (hread : fs.read p = fs.read p') (id : String) (kind : ArtifactKind) (t t' : T) :
    (tools.source fs ⟨id, p, kind⟩ t).1 = (tools.source fs ⟨id, p', kind⟩ t').1 := by
  unfold Tools.source
  cases kind with
  | ruleText =>
      simp only [hread]
      cases fs.read p' with
      | error e => rfl
      | ok bytes =>
          dsimp only
          cases Utf8.decode bytes with
          | error e => rfl
          | ok text => rfl
  | spreadsheet =>
      simp only [hread]
      cases hconvert : tools.convert with
      | none => rfl
      | some c =>
          obtain ⟨f, hf⟩ := h.convert c hconvert
          cases fs.read p' with
          | error e => rfl
          | ok bytes => simp only [hf, hview]

theorem attempt (h : tools.Functional view) {p p' : Path} (hview : view p = view p')
    (hread : fs.read p = fs.read p') (id : String) (kind : ArtifactKind) (t t' : T) :
    (tools.attempt fs ⟨id, p, kind⟩ t).1 = (tools.attempt fs ⟨id, p', kind⟩ t').1 := by
  obtain ⟨f, hf⟩ := h.compile
  have hsource := h.source hview hread id kind t t'
  unfold Tools.attempt
  rcases hx : tools.source fs ⟨id, p, kind⟩ t with ⟨x, u⟩
  rcases hx' : tools.source fs ⟨id, p', kind⟩ t' with ⟨x', u'⟩
  rw [hx, hx'] at hsource
  obtain rfl : x = x' := hsource
  cases x with
  | done text => simp only [hf, hview]
  | failed e => rfl
  | brokeDown message => rfl

/-- What a visit reports does not depend on what the tools remember. -/
theorem visit_memory (h : tools.Functional view) (s : BuildSettings) (fs : FileSystem) (t t' : T)
    (p : Path) : (tools.visit s fs t p).1 = (tools.visit s fs t' p).1 := by
  rw [visit_eq, visit_eq]
  cases s.compiled? fs p with
  | none => rfl
  | some a =>
      have hattempt : (tools.attempt fs a t).1 = (tools.attempt fs a t').1 :=
        h.attempt rfl rfl a.id a.kind t t'
      simp only [hattempt]

/-- Two paths that lead to the same place, that the tools see as one and that are spoken of alike,
whatever the settings, are reported alike. -/
theorem visit_congr (h : tools.Functional view) {s' : BuildSettings} {p p' : Path}
    (hsubject : s.subject? fs p = s'.subject? fs p') (hlocate : fs.locate p = fs.locate p')
    (hview : view p = view p') (t : T) :
    (tools.visit s fs t p).1 = (tools.visit s' fs t p').1 := by
  have hread : fs.read p = fs.read p' := by
    rw [FileSystem.read, FileSystem.read, hlocate]
  rw [visit_eq, visit_eq, s.compiled?_eq, s'.compiled?_eq, BuildSettings.gone?,
    BuildSettings.gone?, hsubject]
  cases s'.subject? fs p' with
  | none => rfl
  | some x =>
      obtain ⟨id, kind?, removed⟩ := x
      cases kind? with
      | none => rfl
      | some kind =>
          have hattempt := h.attempt hview hread id kind t t
          simp only [Option.bind_some, Option.map_some, hattempt]

/-- The reports of a tour that is not cut short are those of its paths, each for itself. -/
theorem tour_reports (h : tools.Functional view) {t : T} {ps : List Path}
    (hrun : (tools.tour s fs t ps).cancelled = false) (t₀ : T) :
    (tools.tour s fs t ps).reports = ps.filterMap fun p => (tools.visit s fs t₀ p).1 := by
  induction ps generalizing t with
  | nil => rfl
  | cons p ps ih =>
      obtain ⟨hgoing, hrest⟩ := going_of_tour_cons hrun
      rw [tour_cons hgoing, List.filterMap_cons]
      simp only [ih hrest, h.visit_memory s fs _ t₀ p]
      cases (tools.visit s fs t₀ p).1 with
      | none => rfl
      | some r => rfl

theorem build_reports (h : tools.Functional view) {S : Type} [ProblemStore S] {kind : BuildKind}
    {store : S} {t : T} {ps : List Path} (hcandidates : s.candidates? fs kind = some ps)
    (hrun : (build s tools fs kind store t).result.summary.cancelled = false) (t₀ : T) :
    (build s tools fs kind store t).result.artifacts =
      ps.filterMap fun p => (tools.visit s fs t₀ p).1 := by
  rw [build_cancelled, buildTour, hcandidates] at hrun
  rw [build_artifacts, buildTour, hcandidates]
  exact h.tour_reports hrun t₀

theorem mem_build_iff (h : tools.Functional view) {S : Type} [ProblemStore S] {kind : BuildKind}
    {store : S} {t : T} {ps : List Path} (hcandidates : s.candidates? fs kind = some ps)
    (hrun : (build s tools fs kind store t).result.summary.cancelled = false) (t₀ : T)
    {r : ArtifactReport} :
    r ∈ (build s tools fs kind store t).result.artifacts ↔
      ∃ p ∈ ps, (tools.visit s fs t₀ p).1 = some r := by
  rw [h.build_reports hcandidates hrun t₀, List.mem_filterMap]

end Tools.Functional

/-! ## Visits of what is given and of what is found -/

theorem BuildSettings.candidates?_of_not_directory {s : BuildSettings} {fs : FileSystem}
    (h : fs.isDirectory s.root = false) (kind : BuildKind) : s.candidates? fs kind = none := by
  simp [candidates?, h]

theorem BuildSettings.candidates?_changed {s : BuildSettings} {fs : FileSystem}
    (hall : s.buildAll = false) (hdir : fs.isDirectory s.root = true) (changed : List Path) :
    s.candidates? fs (.incremental (some changed)) = some (s.changedPaths changed) := by
  rw [candidates?, if_pos hdir, hall]
  rfl

section Visits

variable {T α : Type} {s : BuildSettings} {tools : Tools T} {fs : FileSystem} {changed : List Path}
  {view : Path → α} {t : T} {p q : Path} {names : Location} {r : ArtifactReport}

theorem Tools.subject?_of_visit (h : (tools.visit s fs t p).1 = some r) :
    s.subject? fs p = some r.subject := by
  rw [← tools.visit_subject s fs t p, h]
  rfl

theorem Tools.visit_of_gone (h : fs.hasPath p = false) :
    (tools.visit s fs t p).1 = s.gone? fs p := by
  have hcompiled : s.compiled? fs p = none := by
    simp [BuildSettings.compiled?, h]
  rw [visit_eq, hcompiled]

/-- What is reported under some names has been given by these names. -/
theorem exists_given_of_visit (hroot : s.root.isAbsolute = true)
    (hchanged : ∀ q ∈ changed, ∃ names, q.GivenBelow s.root names)
    (hgiven : q.GivenBelow s.root names) (hr : r.artifact = "/".intercalate names)
    (hp : p ∈ s.changedPaths changed) (hvisit : (tools.visit s fs t p).1 = some r) :
    ∃ q ∈ changed, s.root.join q = p ∧ q.GivenBelow s.root names ∧ s.isHidden p = false := by
  obtain ⟨q', hq', rfl, hvisible⟩ := BuildSettings.mem_changedPaths_iff.mp hp
  obtain ⟨names', hgiven'⟩ := hchanged q' hq'
  have hid := (hgiven'.liesBelow hroot).artifact_of_subject? hroot hgiven'.ne_nil
    (Tools.subject?_of_visit hvisit)
  have hsame : names = names' :=
    intercalate_injective hgiven.ne_nil hgiven'.ne_nil hgiven.named hgiven'.named (hr ▸ hid)
  exact ⟨q', hq', rfl, hsame ▸ hgiven', hvisible⟩

theorem covers_of_visit (h : p.LiesBelow s.root names) (hroot : s.root.isAbsolute = true)
    (hne : names ≠ []) (hvisible : s.isHidden p = false)
    (hvisit : (tools.visit s fs t p).1 = some r) : ∃ kind, s.Covers names kind := by
  obtain ⟨kind, hcovers, _⟩ :=
    (h.subject?_eq_some_iff hroot hne hvisible fs _).mp (Tools.subject?_of_visit hvisit)
  exact ⟨kind, hcovers⟩

theorem removed_of_visit (h : fs.hasPath p = true) (hvisit : (tools.visit s fs t p).1 = some r) :
    r.removed = false := by
  have hsubject := Tools.subject?_of_visit hvisit
  unfold BuildSettings.subject? at hsubject
  split at hsubject
  · cases hsubject
  · obtain ⟨a, _, ha⟩ := Option.map_eq_some_iff.mp hsubject
    exact (congrArg (·.2.2) ha).symm

/-- A changed path that leads to a file is reported as the scan's path to it is. -/
theorem changed_visit_iff_scan_visit (h : tools.Functional view)
    (hroot : s.root.isAbsolute = true) (hup : .up ∉ s.root.components)
    (hdir : fs.at? s.root.names = some .directory)
    (hlisted : ∀ name ∈ s.root.names, ScanBase.isUnlisted name = false)
    (hchanged : ∀ q ∈ changed, ∃ names, q.GivenBelow s.root names)
    (hview : ∀ p ∈ s.scan fs, ∀ q ∈ changed, p.components = (s.root.join q).components →
      view p = view (s.root.join q))
    (hq : q ∈ changed) (hgiven : q.GivenBelow s.root names) {content : Bytes}
    (hfile : fs.at? (s.root.names ++ names) = some (.file content))
    (hr : r.artifact = "/".intercalate names) :
    (∃ p ∈ s.changedPaths changed, (tools.visit s fs t p).1 = some r) ↔
      ∃ p ∈ s.scan fs, (tools.visit s fs t p).1 = some r := by
  obtain ⟨shown, files, hscan, _, hleads, hfiles⟩ :=
    BuildSettings.exists_scan_eq_map hroot hup hdir hlisted
  have hsome : (fs.at? (s.root.names ++ names)).isSome = true := by rw [hfile]; rfl
  have hscanned {names : Location} (hmem : names ∈ files) : shown names ∈ s.scan fs := by
    rw [hscan]
    exact List.mem_map_of_mem hmem
  -- The scan's path and any changed path to the file are reported alike.
  have hsame (hmem : names ∈ files) {q : Path} (hq : q ∈ changed)
      (hgiven : q.GivenBelow s.root names) :
      (tools.visit s fs t (shown names)).1 = (tools.visit s fs t (s.root.join q)).1 := by
    have hreaches := hgiven.reaches hroot hup hsome
    have hshown := (hleads names hmem).2
    refine h.visit_congr (hshown.subject?_congr hreaches hroot hgiven.ne_nil)
      (hshown.locate.trans hreaches.locate.symm) (hview _ (hscanned hmem) q hq ?_) t
    rw [hshown.components, hreaches.components]
  constructor
  · rintro ⟨p, hp, hvisit⟩
    obtain ⟨q', hq', rfl, hgiven', hvisible⟩ :=
      exists_given_of_visit hroot hchanged hgiven hr hp hvisit
    obtain ⟨kind, hcovers⟩ :=
      covers_of_visit (hgiven'.liesBelow hroot) hroot hgiven.ne_nil hvisible hvisit
    have hkind := (ArtifactKind.ofFileName_getLast?_iff names kind).mpr hcovers.extension
    have hmem : names ∈ files :=
      (hfiles names).mpr ⟨⟨content, hfile⟩, ⟨kind, hkind⟩, hcovers.visible⟩
    exact ⟨shown names, hscanned hmem, by rw [hsame hmem hq' hgiven', hvisit]⟩
  · rintro ⟨p, hp, hvisit⟩
    rw [hscan] at hp
    obtain ⟨names', hmem, rfl⟩ := List.mem_map.mp hp
    obtain ⟨hne', hreaches⟩ := hleads names' hmem
    obtain ⟨⟨content', hfile'⟩, _, hvisible⟩ := (hfiles names').mp hmem
    have hnamed : ∀ name ∈ names', FileSystem.isName name = true := fun name hname =>
      FileSystem.isName_of_at? (by rw [hfile']; rfl) (List.mem_append_right _ hname)
    have hid := hreaches.liesBelow.artifact_of_subject? hroot hne' (Tools.subject?_of_visit hvisit)
    obtain rfl : names = names' :=
      intercalate_injective hgiven.ne_nil hne' hgiven.named hnamed (hr ▸ hid)
    refine ⟨s.root.join q, BuildSettings.mem_changedPaths_iff.mpr ⟨q, hq, rfl, ?_⟩, ?_⟩
    · exact (hgiven.liesBelow hroot).isHidden_eq_false_iff.mpr hvisible
    · rw [← hsame hmem hq hgiven, hvisit]

/-- A changed path that leads nowhere is reported as removed if it is covered. -/
theorem changed_visit_iff_of_gone (hroot : s.root.isAbsolute = true)
    (hup : .up ∉ s.root.components) (hchanged : ∀ q ∈ changed, ∃ names, q.GivenBelow s.root names)
    (hq : q ∈ changed) (hgiven : q.GivenBelow s.root names)
    (hgone : fs.at? (s.root.names ++ names) = none) (hr : r.artifact = "/".intercalate names) :
    (∃ p ∈ s.changedPaths changed, (tools.visit s fs t p).1 = some r) ↔
      (∃ kind, s.Covers names kind) ∧ r = ⟨"/".intercalate names, none, [], true⟩ := by
  have hvisit {q : Path} (hgiven : q.GivenBelow s.root names)
      (hvisible : s.isHidden (s.root.join q) = false) :
      (tools.visit s fs t (s.root.join q)).1 = some r ↔
        (∃ kind, s.Covers names kind) ∧ r = ⟨"/".intercalate names, none, [], true⟩ := by
    have hpath : fs.hasPath (s.root.join q) = false := by
      rw [Bool.eq_false_iff, ne_eq, hgiven.hasPath_iff hroot hup, hgone]
      simp
    simp only [Tools.visit_of_gone hpath, BuildSettings.gone?, Option.map_eq_some_iff,
      (hgiven.liesBelow hroot).subject?_eq_some_iff hroot hgiven.ne_nil hvisible, hpath,
      Bool.false_eq_true, ↓reduceIte]
    constructor
    · rintro ⟨_, ⟨kind, hcovers, rfl⟩, rfl⟩
      exact ⟨⟨kind, hcovers⟩, rfl⟩
    · rintro ⟨⟨kind, hcovers⟩, rfl⟩
      exact ⟨_, ⟨kind, hcovers, rfl⟩, rfl⟩
  constructor
  · rintro ⟨p, hp, hreport⟩
    obtain ⟨q', _, rfl, hgiven', hvisible⟩ :=
      exists_given_of_visit hroot hchanged hgiven hr hp hreport
    exact (hvisit hgiven' hvisible).mp hreport
  · rintro ⟨⟨kind, hcovers⟩, hreport⟩
    have hvisible := (hgiven.liesBelow hroot).isHidden_eq_false_iff.mpr hcovers.visible
    exact ⟨s.root.join q, BuildSettings.mem_changedPaths_iff.mpr ⟨q, hq, rfl, hvisible⟩,
      (hvisit hgiven hvisible).mpr ⟨⟨kind, hcovers⟩, hreport⟩⟩

theorem exists_visit_of_covers (tools : Tools T) (t : T) (hroot : s.root.isAbsolute = true)
    (hup : .up ∉ s.root.components) (hq : q ∈ changed) (hgiven : q.GivenBelow s.root names)
    (hsome : (fs.at? (s.root.names ++ names)).isSome = true) {kind : ArtifactKind}
    (hcovers : s.Covers names kind) :
    ∃ p ∈ s.changedPaths changed, ∃ r, (tools.visit s fs t p).1 = some r ∧
      r.subject = ("/".intercalate names, some kind, false) := by
  have hlies := hgiven.liesBelow hroot
  have hvisible := hlies.isHidden_eq_false_iff.mpr hcovers.visible
  have hsubject := (hlies.subject?_eq_some_iff hroot hgiven.ne_nil hvisible fs _).mpr
    ⟨kind, hcovers, rfl⟩
  rw [(hgiven.hasPath_iff hroot hup).mpr hsome, if_pos rfl,
    ← tools.visit_subject s fs t (s.root.join q), Option.map_eq_some_iff] at hsubject
  exact ⟨s.root.join q, BuildSettings.mem_changedPaths_iff.mpr ⟨q, hq, rfl, hvisible⟩, hsubject⟩

/-- On the changed files, visits of the changed paths and of the scan's paths report the same
exactly if the scan's root is listed, or if there is nothing to report. -/
theorem changed_visits_agree_iff (h : tools.Functional view) (hroot : s.root.isAbsolute = true)
    (hup : .up ∉ s.root.components) (hdir : fs.at? s.root.names = some .directory)
    (hchanged : ∀ q ∈ changed, ∃ names, q.GivenBelow s.root names)
    (hview : ∀ p ∈ s.scan fs, ∀ q ∈ changed, p.components = (s.root.join q).components →
      view p = view (s.root.join q)) :
    (∀ q ∈ changed, ∀ names content, q.GivenBelow s.root names →
        fs.at? (s.root.names ++ names) = some (.file content) →
        ∀ r, r.artifact = "/".intercalate names →
          ((∃ p ∈ s.changedPaths changed, (tools.visit s fs t p).1 = some r) ∧ r.removed = false ↔
            ∃ p ∈ s.scan fs, (tools.visit s fs t p).1 = some r)) ↔
      (∀ name ∈ s.root.names, ScanBase.isUnlisted name = false) ∨
        ∀ q ∈ changed, ∀ names content kind, q.GivenBelow s.root names →
          fs.at? (s.root.names ++ names) = some (.file content) → ¬ s.Covers names kind := by
  by_cases hlisted : ∀ name ∈ s.root.names, ScanBase.isUnlisted name = false
  · refine iff_of_true ?_ (.inl hlisted)
    intro q hq names content hgiven hfile r hr
    rw [← changed_visit_iff_scan_visit h hroot hup hdir hlisted hchanged hview hq hgiven hfile hr]
    refine and_iff_left_of_imp ?_
    rintro ⟨p, hp, hvisit⟩
    obtain ⟨q', _, rfl, hgiven', _⟩ := exists_given_of_visit hroot hchanged hgiven hr hp hvisit
    exact removed_of_visit ((hgiven'.hasPath_iff hroot hup).mpr (by rw [hfile]; rfl)) hvisit
  · obtain ⟨name, hmem, hname⟩ : ∃ name ∈ s.root.names, ScanBase.isUnlisted name = true := by
      simpa using hlisted
    have hnone (r : ArtifactReport) : ¬ ∃ p ∈ s.scan fs, (tools.visit s fs t p).1 = some r := by
      rw [BuildSettings.scan_of_isUnlisted hroot hmem hname]
      simp
    constructor
    · intro hagree
      refine .inr fun q hq names content kind hgiven hfile hcovers => ?_
      obtain ⟨p, hp, r, hvisit, hsubject⟩ := exists_visit_of_covers tools t hroot hup hq hgiven
        (by rw [hfile]; rfl) hcovers
      exact hnone r ((hagree q hq names content hgiven hfile r (congrArg (·.1) hsubject)).mp
        ⟨⟨p, hp, hvisit⟩, congrArg (·.2.2) hsubject⟩)
    · intro hcondition q hq names content hgiven hfile r hr
      refine iff_of_false ?_ (hnone r)
      rintro ⟨⟨p, hp, hvisit⟩, _⟩
      obtain ⟨q', _, rfl, hgiven', hvisible⟩ :=
        exists_given_of_visit hroot hchanged hgiven hr hp hvisit
      obtain ⟨kind, hcovers⟩ :=
        covers_of_visit (hgiven'.liesBelow hroot) hroot hgiven.ne_nil hvisible hvisit
      exact hcondition.resolve_left hlisted q hq names content kind hgiven hfile hcovers

end Visits

/-! ## Builds -/

/-- Whether two results agree in what they report of an artifact that is not removed. -/
def BuildResult.AgreesOn (part whole : BuildResult) (id : String) : Prop :=
  ∀ r, r.artifact = id → (r ∈ part.artifacts ∧ r.removed = false ↔ r ∈ whole.artifacts)

variable {S T α : Type} [ProblemStore S]

theorem build_artifacts_of_not_directory {s : BuildSettings} {fs : FileSystem}
    (h : fs.isDirectory s.root = false) (tools : Tools T) (kind : BuildKind) (store : S) (t : T) :
    (build s tools fs kind store t).result.artifacts = [Tools.failureReport s.root] := by
  rw [build_artifacts, Tools.buildTour, BuildSettings.candidates?_of_not_directory h]

theorem at?_of_not_directory {s : BuildSettings} {fs : FileSystem} {q : Path} {names : Location}
    (hroot : s.root.isAbsolute = true) (hup : .up ∉ s.root.components)
    (hdir : fs.isDirectory s.root = false) (h : q.GivenBelow s.root names) :
    fs.at? (s.root.names ++ names) = none := by
  rw [Bool.eq_false_iff, ne_eq, FileSystem.isDirectory_iff hroot hup] at hdir
  rw [← Option.not_isSome_iff_eq_none]
  exact fun hsome => hdir (FileSystem.at?_eq_directory_of_append h.ne_nil hsome)

/-- An incremental and a full build, neither cancelled, with tools that compute their results and
take a scanned path and a changed one with the same components for the same, as they do if they look
at the components only. On the changed files the builds agree, in the diagnostics too, exactly if
the way to the root has no name that begins with a dot and has to be quoted in a pattern, or there
is nothing to report of these files. What is changed and gone is reported by the incremental build,
as removed, exactly if it is covered, and has no problems afterwards. -/
theorem incremental_agrees_with_full_iff (s : BuildSettings) (tools : Tools T) (view : Path → α)
    (fs : FileSystem) (changed : List Path) (kind : BuildKind) (l : ProblemList) (store : S)
    (t t' : T) (hroot : s.root.isAbsolute = true) (hup : .up ∉ s.root.components)
    (hall : s.buildAll = false) (hfull : s.IsFull kind) (htools : tools.Functional view)
    (hchanged : ∀ q ∈ changed, ∃ names, q.GivenBelow s.root names ∧
      fs.at? (s.root.names ++ names) ≠ some .directory)
    (hview : ∀ p ∈ s.scan fs, ∀ q ∈ changed, p.components = (s.root.join q).components →
      view p = view (s.root.join q)) :
    let part := build s tools fs (.incremental (some changed)) l t
    let whole := build s tools fs kind store t'
    part.result.summary.cancelled = false → whole.result.summary.cancelled = false →
      ((∀ q ∈ changed, ∀ names content, q.GivenBelow s.root names →
            fs.at? (s.root.names ++ names) = some (.file content) →
            part.result.AgreesOn whole.result ("/".intercalate names)) ↔
          (∀ name ∈ s.root.names, ScanBase.isUnlisted name = false) ∨
            ∀ q ∈ changed, ∀ names content kind, q.GivenBelow s.root names →
              fs.at? (s.root.names ++ names) = some (.file content) → ¬ s.Covers names kind) ∧
        ∀ q ∈ changed, ∀ names, q.GivenBelow s.root names →
          fs.at? (s.root.names ++ names) = none →
          (∀ r, r.artifact = "/".intercalate names →
            (r ∈ part.result.artifacts ↔ fs.isDirectory s.root = true ∧
              (∃ kind, s.Covers names kind) ∧ r = ⟨"/".intercalate names, none, [], true⟩)) ∧
          ((∃ r ∈ part.result.artifacts, r.artifact = "/".intercalate names) →
            ∀ m ∈ part.recorded.store.markersOf ("/".intercalate names),
              m.category ≠ l.category) := by
  intro part whole hpart hwhole
  have hbelow : ∀ q ∈ changed, ∃ names, q.GivenBelow s.root names := fun q hq =>
    (hchanged q hq).imp fun _ h => h.1
  cases hdir : fs.isDirectory s.root with
  | false =>
      have hnone {q : Path} {names : Location} {content : Bytes} (h : q.GivenBelow s.root names) :
          fs.at? (s.root.names ++ names) ≠ some (.file content) := by
        simp [at?_of_not_directory hroot hup hdir h]
      -- Both builds report only that the root is no directory.
      have hproject {q : Path} {names : Location} (h : q.GivenBelow s.root names) :
          ∀ r ∈ part.result.artifacts, r.artifact ≠ "/".intercalate names := by
        intro r hr
        rw [build_artifacts_of_not_directory hdir] at hr
        rw [List.mem_singleton.mp hr]
        exact (intercalate_ne_projectId h.ne_nil h.named).symm
      refine ⟨iff_of_true ?_ (.inr ?_), ?_⟩
      · intro q _ names content hgiven hfile
        exact absurd hfile (hnone hgiven)
      · intro q _ names content kind hgiven hfile
        exact absurd hfile (hnone hgiven)
      · intro q _ names hgiven _
        refine ⟨fun r hr => iff_of_false (fun hmem => hproject hgiven r hmem hr) (by simp), ?_⟩
        rintro ⟨r, hmem, hr⟩
        exact absurd hr (hproject hgiven r hmem)
  | true =>
      have hnames := (FileSystem.isDirectory_iff hroot hup).mp hdir
      have hpartial (r : ArtifactReport) : r ∈ part.result.artifacts ↔
          ∃ p ∈ s.changedPaths changed, (tools.visit s fs t p).1 = some r :=
        htools.mem_build_iff (BuildSettings.candidates?_changed hall hdir changed) hpart t
      have hentire (r : ArtifactReport) : r ∈ whole.result.artifacts ↔
          ∃ p ∈ s.scan fs, (tools.visit s fs t p).1 = some r :=
        htools.mem_build_iff (BuildSettings.candidates?_of_isFull hfull hdir) hwhole t
      constructor
      · simp only [BuildResult.AgreesOn, hpartial, hentire]
        exact changed_visits_agree_iff htools hroot hup hnames hbelow hview
      · intro q hq names hgiven hgone
        have hremoved (r : ArtifactReport) (hr : r.artifact = "/".intercalate names) :
            r ∈ part.result.artifacts ↔ (∃ kind, s.Covers names kind) ∧
              r = ⟨"/".intercalate names, none, [], true⟩ := by
          rw [hpartial, changed_visit_iff_of_gone hroot hup hbelow hq hgiven hgone hr]
        refine ⟨fun r hr => by rw [hremoved r hr, and_iff_right rfl], fun hreported => ?_⟩
        have hproblems := build_problems_of_reported hreported fun r hmem hr =>
          congrArg (·.diagnostics) ((hremoved r hr).mp hmem).2
        have hown := (ProblemList.problems_eq_nil_iff _ _).mp hproblems
        rwa [build_category] at hown

theorem functional_acceptingTools {view : Path → α} : acceptingTools.Functional view where
  compile := ⟨fun _ _ _ _ => .done .clean, fun _ _ _ => rfl⟩
  convert _ h := nomatch h

/-- The rule text is reported as by a full build, whose scan comes to it too; the rule text that is
gone is reported as removed, and its stale problem is dropped. -/
theorem rule_reported_as_by_full_build :
    let s := BuildSettings.ofDirectory "rules" none
    let fs := FileSystem.ofOneRule "rules" (by decide)
    let changed : List Path := [⟨["x.drl"]⟩, ⟨["", "rules", "gone.drl"]⟩]
    let l := (ProblemList.empty "drlbuild.problem").push "gone.drl" (.error "stale" none)
    let part := build s acceptingTools fs (.incremental (some changed)) l ()
    s.root.isAbsolute = true ∧ .up ∉ s.root.components ∧ s.buildAll = false ∧ s.IsFull .full ∧
      acceptingTools.Functional (id : Path → Path) ∧
      (∀ q ∈ changed, ∃ names, q.GivenBelow s.root names ∧
        fs.at? (s.root.names ++ names) ≠ some .directory) ∧
      (∀ p ∈ s.scan fs, ∀ q ∈ changed, p.components = (s.root.join q).components →
        id p = id (s.root.join q)) ∧
      part.result.summary.cancelled = false ∧
      (build s acceptingTools fs .full l ()).result.summary.cancelled = false ∧
      part.result.AgreesOn (build s acceptingTools fs .full l ()).result "x.drl" ∧
      ⟨"x.drl", some .ruleText, [], false⟩ ∈ part.result.artifacts ∧
      ⟨"gone.drl", none, [], true⟩ ∈ part.result.artifacts ∧
      ∀ m ∈ part.recorded.store.markersOf "gone.drl", m.category ≠ l.category := by
  intro s fs changed l part
  obtain ⟨hroot, hup, _⟩ := BuildSettings.root_ofDirectory "rules" (by decide) none
  have hx : Path.GivenBelow ⟨["x.drl"]⟩ s.root ["x.drl"] :=
    ⟨.inl (by decide), rfl, by simp, by decide⟩
  have hgone : Path.GivenBelow ⟨["", "rules", "gone.drl"]⟩ s.root ["gone.drl"] :=
    ⟨.inr (by decide), rfl, by simp, by decide⟩
  have hfile : fs.at? (s.root.names ++ ["x.drl"]) = some (.file []) := by decide
  have hnone : fs.at? (s.root.names ++ ["gone.drl"]) = none := by decide
  have hchanged : ∀ q ∈ changed, ∃ names, q.GivenBelow s.root names ∧
      fs.at? (s.root.names ++ names) ≠ some .directory := by
    simp only [changed, List.forall_mem_cons, List.not_mem_nil, false_implies, implies_true,
      and_true]
    exact ⟨⟨_, hx, by rw [hfile]; simp⟩, ⟨_, hgone, by rw [hnone]; simp⟩⟩
  have hview : ∀ p ∈ s.scan fs, ∀ q ∈ changed, p.components = (s.root.join q).components →
      id p = id (s.root.join q) := by decide
  have hpart : part.result.summary.cancelled = false := build_not_cancelled (fun _ => rfl) ..
  have hwhole : (build s acceptingTools fs .full l ()).result.summary.cancelled = false :=
    build_not_cancelled (fun _ => rfl) ..
  obtain ⟨hagree, hremoved⟩ := incremental_agrees_with_full_iff s acceptingTools id fs changed .full
    l l () () hroot hup rfl (.inr (.inl rfl)) functional_acceptingTools hchanged hview hpart hwhole
  have hlisted : ∀ name ∈ s.root.names, ScanBase.isUnlisted name = false := by decide
  have hreport : ⟨"gone.drl", none, [], true⟩ ∈ part.result.artifacts := by decide
  refine ⟨hroot, hup, rfl, .inr (.inl rfl), functional_acceptingTools, hchanged, hview, hpart,
    hwhole, ?_, by decide, hreport, ?_⟩
  · exact hagree.mpr (.inl hlisted) _ List.mem_cons_self _ [] hx hfile
  · exact (hremoved _ (List.mem_cons_of_mem _ List.mem_cons_self) _ hgone hnone).2
      ⟨_, hreport, rfl⟩

/-- The incremental build reports the rule text, the full build does not, if the directory begins
with a dot and has brackets in it. -/
theorem rule_reported_only_when_changed :
    let s := BuildSettings.ofDirectory ".a[b]" none
    let fs := FileSystem.ofOneRule ".a[b]" (by decide)
    let changed : List Path := [⟨["x.drl"]⟩]
    let l := ProblemList.empty "drlbuild.problem"
    let part := build s acceptingTools fs (.incremental (some changed)) l ()
    let whole := build s acceptingTools fs .full l ()
    s.root.isAbsolute = true ∧ .up ∉ s.root.components ∧ s.buildAll = false ∧ s.IsFull .full ∧
      acceptingTools.Functional (id : Path → Path) ∧
      Path.GivenBelow ⟨["x.drl"]⟩ s.root ["x.drl"] ∧
      fs.at? (s.root.names ++ ["x.drl"]) = some (.file []) ∧
      part.result.summary.cancelled = false ∧ whole.result.summary.cancelled = false ∧
      ¬ part.result.AgreesOn whole.result "x.drl" := by
  intro s fs changed l part whole
  obtain ⟨hroot, hup, _⟩ := BuildSettings.root_ofDirectory ".a[b]" (by decide) none
  refine ⟨hroot, hup, rfl, .inr (.inl rfl), functional_acceptingTools,
    ⟨.inl (by decide), rfl, by simp, by decide⟩, by decide, build_not_cancelled (fun _ => rfl) ..,
    build_not_cancelled (fun _ => rfl) .., ?_⟩
  intro hagree
  have hpart : ⟨"x.drl", some .ruleText, [], false⟩ ∈ part.result.artifacts := by decide
  have hwhole : whole.result.artifacts = [] := by decide
  have hmem := (hagree _ rfl).mp ⟨hpart, rfl⟩
  rw [hwhole] at hmem
  cases hmem

end RuleBuild
