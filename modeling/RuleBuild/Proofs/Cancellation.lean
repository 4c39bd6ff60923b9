import RuleBuild.Proofs.BuildMarkers
import RuleBuild.Proofs.FullBuild

/-!
# Builds that are cancelled

A build looks at its flag between artifacts only. Once the flag is raised, what has been reported
stands, the artifact in hand is finished, and nothing after it is touched. A build whose traversal
fails has no artifacts and so never looks at the flag.
-/
namespace RuleBuild

namespace Tools

variable {T U : Type}

/-- Tools with a flag in their memory that nothing but the build looks at: without it, which is what
`forget` leaves, they are the tools `calm`, whose build is never cancelled. -/
structure Forgets (tools : Tools T) (calm : Tools U) (forget : T → U) : Prop where
  compile : ∀ text a t, calm.compile text a (forget t) =
    ((tools.compile text a t).1, forget (tools.compile text a t).2)
  convert : Option.Rel
    (fun f g => ∀ bytes a t, g bytes a (forget t) = ((f bytes a t).1, forget (f bytes a t).2))
    tools.convert calm.convert
  meanwhile : ∀ t, calm.meanwhile (forget t) = forget (tools.meanwhile t)
  going : ∀ u, calm.cancelled u = false

/-- Whether a raised flag stays raised. -/
structure KeepsFlag (tools : Tools T) : Prop where
  compile : ∀ text a t, tools.cancelled t = true → tools.cancelled (tools.compile text a t).2 = true
  convert : ∀ f ∈ tools.convert, ∀ bytes a t, tools.cancelled t = true →
    tools.cancelled (f bytes a t).2 = true
  meanwhile : ∀ t, tools.cancelled t = true → tools.cancelled (tools.meanwhile t) = true

/-! ## The flag forgotten -/

namespace Forgets

variable {tools : Tools T} {calm : Tools U} {forget : T → U}

theorem source (h : tools.Forgets calm forget) (fs : FileSystem) (a : Artifact) (t : T) :
    calm.source fs a (forget t) = ((tools.source fs a t).1, forget (tools.source fs a t).2) := by
  unfold Tools.source
  cases a.kind with
  | ruleText =>
      cases fs.read a.path with
      | error e => rfl
      | ok bytes =>
          dsimp only
          cases Utf8.decode bytes with
          | error e => rfl
          | ok text => rfl
  | spreadsheet =>
      dsimp only
      -- Either both tools have a converter, and it answers the same, or none has.
      cases hmine : tools.convert with
      | none =>
          cases hcalm : calm.convert with
          | none => rfl
          | some g => exact absurd h.convert (by rw [hmine, hcalm]; rintro ⟨⟩)
      | some f =>
          cases hcalm : calm.convert with
          | none => exact absurd h.convert (by rw [hmine, hcalm]; rintro ⟨⟩)
          | some g =>
              have hrel := h.convert
              rw [hmine, hcalm] at hrel
              obtain ⟨hrel⟩ := hrel
              cases fs.read a.path with
              | error e => rfl
              | ok bytes => exact hrel bytes a t

theorem attempt (h : tools.Forgets calm forget) (fs : FileSystem) (a : Artifact) (t : T) :
    calm.attempt fs a (forget t) = ((tools.attempt fs a t).1, forget (tools.attempt fs a t).2) := by
  unfold Tools.attempt
  rw [h.source]
  rcases tools.source fs a t with ⟨text | e | message, t⟩
  · exact h.compile text a t
  · rfl
  · rfl

theorem visit (h : tools.Forgets calm forget) (s : BuildSettings) (fs : FileSystem) (t : T)
    (p : Path) :
    calm.visit s fs (forget t) p =
      ((tools.visit s fs t p).1, forget (tools.visit s fs t p).2) := by
  rw [visit_eq, visit_eq]
  cases s.compiled? fs p with
  | none => rfl
  | some a => simp only [h.attempt]

/-- Whenever the flag is raised, the reports so far are those without the flag. -/
theorem isPrefix_reports (h : tools.Forgets calm forget) (s : BuildSettings) (fs : FileSystem)
    (t : T) (ps : List Path) :
    (tools.tour s fs t ps).reports <+: (calm.tour s fs (forget t) ps).reports := by
  induction ps generalizing t with
  | nil => exact List.prefix_refl _
  | cons p ps ih =>
      cases hdown : tools.cancelled (tools.meanwhile t) with
      | true =>
          rw [Tools.tour, hdown]
          exact List.nil_prefix
      | false =>
          have hcalm := h.going (calm.meanwhile (forget t))
          rw [tour_cons hdown, tour_cons hcalm]
          simp only [h.meanwhile, h.visit]
          exact (List.prefix_append_right_inj _).mpr (ih _)

end Forgets

/-! ## The flag raised -/

/-- The tools in a build that does not look at their flag. -/
def unstopped (tools : Tools T) : Tools T := { tools with cancelled := fun _ => false }

/-- The memory of the tools after visits of paths, whatever the flag says. -/
def memoryAfter (tools : Tools T) (s : BuildSettings) (fs : FileSystem) (t : T) (ps : List Path) :
    T :=
  (tools.unstopped.tour s fs t ps).tools

theorem memoryAfter_cons (tools : Tools T) (s : BuildSettings) (fs : FileSystem) (t : T) (p : Path)
    (ps : List Path) :
    tools.memoryAfter s fs t (p :: ps) =
      tools.memoryAfter s fs (tools.visit s fs (tools.meanwhile t) p).2 ps := rfl

theorem memoryAfter_append (tools : Tools T) (s : BuildSettings) (fs : FileSystem) (t : T)
    (ps qs : List Path) :
    tools.memoryAfter s fs t (ps ++ qs) =
      tools.memoryAfter s fs (tools.memoryAfter s fs t ps) qs := by
  induction ps generalizing t with
  | nil => rfl
  | cons p ps ih => rw [List.cons_append, memoryAfter_cons, memoryAfter_cons, ih]

namespace KeepsFlag

variable {tools : Tools T}

theorem attempt (h : tools.KeepsFlag) (fs : FileSystem) (a : Artifact) {t : T}
    (ht : tools.cancelled t = true) : tools.cancelled (tools.attempt fs a t).2 = true := by
  have hsource : tools.cancelled (tools.source fs a t).2 = true := by
    unfold source
    split
    · split
      · exact ht
      · split <;> exact ht
    · split
      · exact ht
      · rename_i f hf
        split
        · exact ht
        · exact h.convert f hf _ a t ht
  unfold Tools.attempt
  split
  · rename_i text u heq
    exact h.compile text a u (by rwa [heq] at hsource)
  · rename_i heq
    rwa [heq] at hsource
  · rename_i heq
    rwa [heq] at hsource

theorem visit (h : tools.KeepsFlag) (s : BuildSettings) (fs : FileSystem) {t : T} (p : Path)
    (ht : tools.cancelled t = true) : tools.cancelled (tools.visit s fs t p).2 = true := by
  rw [visit_eq]
  cases s.compiled? fs p with
  | none => exact ht
  | some a => exact h.attempt fs a ht

theorem memoryAfter (h : tools.KeepsFlag) (s : BuildSettings) (fs : FileSystem) {t : T}
    (ps : List Path) (ht : tools.cancelled t = true) :
    tools.cancelled (tools.memoryAfter s fs t ps) = true := by
  induction ps generalizing t with
  | nil => exact ht
  | cons p ps ih => exact ih (h.visit s fs p (h.meanwhile t ht))

theorem down_of_meanwhile (h : tools.KeepsFlag) {t : T}
    (hdown : tools.cancelled (tools.meanwhile t) = false) : tools.cancelled t = false := by
  cases hflag : tools.cancelled t with
  | true =>
      rw [h.meanwhile t hflag] at hdown
      cases hdown
  | false => rfl

/-- A flag that is down after visits was down at each of them. -/
theorem tour_of_down (h : tools.KeepsFlag) {s : BuildSettings} {fs : FileSystem} {t : T}
    {ps : List Path} (hdown : tools.cancelled (tools.memoryAfter s fs t ps) = false) :
    (tools.tour s fs t ps).cancelled = false ∧
      (tools.tour s fs t ps).tools = tools.memoryAfter s fs t ps := by
  induction ps generalizing t with
  | nil => exact ⟨rfl, rfl⟩
  | cons p ps ih =>
      cases hflag : tools.cancelled (tools.meanwhile t) with
      | true =>
          have hraised := h.memoryAfter s fs ps (h.visit s fs p hflag)
          rw [memoryAfter_cons, hraised] at hdown
          cases hdown
      | false =>
          rw [tour_cons hflag]
          exact ih hdown

/-- Once the flag is raised a tour goes no further: it is cut short if there is anything left. -/
theorem tour_of_raised (h : tools.KeepsFlag) {s : BuildSettings} {fs : FileSystem} {t : T}
    {before : List Path} {p : Path} (rest : List Path)
    (hdown : tools.cancelled (tools.meanwhile (tools.memoryAfter s fs t before)) = false)
    (hup : tools.cancelled (tools.meanwhile (tools.memoryAfter s fs t (before ++ [p]))) = true) :
    (tools.tour s fs t (before ++ p :: rest)).reports =
        (tools.tour s fs t before).reports ++
          (tools.visit s fs (tools.meanwhile (tools.memoryAfter s fs t before)) p).1.toList ∧
      (tools.tour s fs t (before ++ p :: rest)).cancelled = decide (rest ≠ []) := by
  obtain ⟨hgoing, hmemory⟩ := h.tour_of_down (h.down_of_meanwhile hdown)
  rw [memoryAfter_append, memoryAfter_cons] at hup
  rw [tour_append hgoing, hmemory, tour_cons hdown]
  cases rest with
  | nil => simp [tour]
  | cons q qs =>
      have hstop : tools.cancelled (tools.meanwhile (tools.visit s fs
          (tools.meanwhile (tools.memoryAfter s fs t before)) p).2) = true := hup
      simp [tour, hstop]

end KeepsFlag

/-- The flag is raised while `a`, the artifact at `p`, is being compiled: it is down when the build
comes to `p`, and up when the build is done with it. The paths `rest` are still to come. -/
structure RaisedDuring (tools : Tools T) (s : BuildSettings) (fs : FileSystem) (kind : BuildKind)
    (t : T) (before : List Path) (p : Path) (rest : List Path) (a : Artifact) : Prop where
  candidates : s.candidates? fs kind = some (before ++ p :: rest)
  compiled : s.compiled? fs p = some a
  down : tools.cancelled (tools.meanwhile (tools.memoryAfter s fs t before)) = false
  up : tools.cancelled (tools.meanwhile (tools.memoryAfter s fs t (before ++ [p]))) = true

end Tools

variable {T U : Type}

/-- A flag that is never taken back cuts a build short at an artifact. Whenever it is raised, the
reports are the first of those of the build without it, the numbers are those of these reports, and
what is not reported keeps its markers. Raised before the build, it leaves no report; raised while
an artifact is compiled, this artifact is the last to be reported, and its problems are replaced.
The build counts as cancelled exactly if a path was still to come. A traversal that fails is
reported whatever the flag says. -/
theorem raised_flag_cuts_build (s : BuildSettings) (tools : Tools T) (calm : Tools U)
    (forget : T → U) (fs : FileSystem) (kind : BuildKind) (l : ProblemList) (t : T)
    (hforgets : tools.Forgets calm forget) (hkeeps : tools.KeepsFlag) :
    let cut := build s tools fs kind l t
    let whole := build s calm fs kind l (forget t)
    whole.result.summary.cancelled = false ∧
      cut.result.artifacts <+: whole.result.artifacts ∧
      cut.result.IsCounted ∧
      (∀ id, id ≠ projectId → (∀ r ∈ cut.result.artifacts, r.artifact ≠ id) →
        cut.recorded.store.markers[id]? = l.markers[id]?) ∧
      (tools.cancelled t = true →
        match s.candidates? fs kind with
        | some ps =>
          cut.result.artifacts = [] ∧ cut.result.summary.cancelled = decide (ps ≠ [])
        | none => cut.result = whole.result) ∧
      ∀ before p rest a, tools.RaisedDuring s fs kind t before p rest a →
        cut.result.summary.cancelled = decide (rest ≠ []) ∧
          ∃ earlier r, cut.result.artifacts = earlier ++ [r] ∧
            earlier.map ArtifactReport.subject = before.filterMap (s.subject? fs) ∧
            r.subject = (a.id, some a.kind, false) ∧
            cut.recorded.store.problems a.id = r.diagnostics := by
  intro cut whole
  refine ⟨build_not_cancelled hforgets.going .., ?_, build_isCounted .., ?_, ?_, ?_⟩
  · simp only [cut, whole, build_artifacts, Tools.buildTour]
    cases s.candidates? fs kind with
    | some ps => exact hforgets.isPrefix_reports s fs t ps
    | none => exact List.prefix_refl _
  · intro id hid hreports
    exact build_markers_of_not_reported hid hreports
  · intro hraised
    cases hcandidates : s.candidates? fs kind with
    | none =>
        simp only [cut, whole, build_result, Tools.buildTour, hcandidates]
        rfl
    | some ps =>
        simp only [cut, build_artifacts, build_cancelled, Tools.buildTour, hcandidates]
        cases ps with
        | nil => exact ⟨rfl, rfl⟩
        | cons p ps => simp [Tools.tour, hkeeps.meanwhile t hraised]
  · intro before p rest a hduring
    obtain ⟨hreports, hcancelled⟩ := hkeeps.tour_of_raised rest hduring.down hduring.up
    have hartifacts : cut.result.artifacts = (tools.tour s fs t (before ++ p :: rest)).reports := by
      simp only [cut, build_artifacts, Tools.buildTour, hduring.candidates]
    have hbefore : (tools.tour s fs t before).cancelled = false :=
      (hkeeps.tour_of_down (hkeeps.down_of_meanwhile hduring.down)).1
    rw [Tools.visit_eq, hduring.compiled] at hreports
    rw [hreports] at hartifacts
    refine ⟨?_, _, _, hartifacts, Tools.tour_subjects hbefore, rfl, ?_⟩
    · rw [← hcancelled]
      simp only [cut, build_cancelled, Tools.buildTour, hduring.candidates]
    · exact build_problems_of_last hartifacts (by simp)

/-- Tools that raise their flag whenever they compile. -/
def raisingTools : Tools Bool where
  compile _ _ _ := (.done .clean, true)
  convert := none
  cancelled raised := raised

theorem forgets_raisingTools : raisingTools.Forgets acceptingTools fun _ => () where
  compile _ _ _ := rfl
  convert := .none
  meanwhile _ := rfl
  going _ := rfl

theorem keepsFlag_raisingTools : raisingTools.KeepsFlag where
  compile _ _ _ _ := rfl
  convert _ h := nomatch h
  meanwhile _ h := h

/-- The flag is raised by the first of two changed paths; of the second, which is gone, nothing is
reported, and its stale problem stays. -/
theorem raised_by_first_of_two :
    let s := BuildSettings.ofDirectory "rules" none
    let fs := FileSystem.ofOneRule "rules" (by decide)
    let kind := BuildKind.incremental (some [⟨["x.drl"]⟩, ⟨["gone.drl"]⟩])
    let l := (ProblemList.empty "drlbuild.problem").push "gone.drl" (.error "stale" none)
    let cut := build s raisingTools fs kind l false
    raisingTools.Forgets acceptingTools (fun _ => ()) ∧ raisingTools.KeepsFlag ∧
      raisingTools.RaisedDuring s fs kind false [] ⟨["", "rules", "x.drl"]⟩
        [⟨["", "rules", "gone.drl"]⟩] ⟨"x.drl", ⟨["", "rules", "x.drl"]⟩, .ruleText⟩ ∧
      cut.result.summary.cancelled = true ∧
      cut.result.artifacts.map ArtifactReport.subject = [("x.drl", some .ruleText, false)] ∧
      cut.recorded.store.markers["gone.drl"]? = l.markers["gone.drl"]? := by
  intro s fs kind l cut
  obtain ⟨_, _, _, hkept, _, hduring⟩ := raised_flag_cuts_build s raisingTools acceptingTools
    (fun _ => ()) fs kind l false forgets_raisingTools keepsFlag_raisingTools
  have hraised : raisingTools.RaisedDuring s fs kind false [] ⟨["", "rules", "x.drl"]⟩
      [⟨["", "rules", "gone.drl"]⟩] ⟨"x.drl", ⟨["", "rules", "x.drl"]⟩, .ruleText⟩ :=
    ⟨by decide, by decide, by decide, by decide⟩
  obtain ⟨hcancelled, _⟩ := hduring _ _ _ _ hraised
  have hsubjects : cut.result.artifacts.map ArtifactReport.subject =
      [("x.drl", some .ruleText, false)] := by decide
  have hgone : ∀ r ∈ cut.result.artifacts, r.artifact ≠ "gone.drl" := by decide
  exact ⟨forgets_raisingTools, keepsFlag_raisingTools, hraised, hcancelled, hsubjects,
    hkept "gone.drl" (by decide) hgone⟩

/-- A traversal that fails is reported although the flag was raised before the build. -/
theorem failure_reported_though_raised :
    raisingTools.Forgets acceptingTools (fun _ => ()) ∧ raisingTools.KeepsFlag ∧
      raisingTools.cancelled true = true ∧
      (build ⟨⟨["", "nope"]⟩, none, false⟩ raisingTools FileSystem.empty .full
        (ProblemList.empty "drlbuild.problem") true).result.artifacts ≠ [] :=
  ⟨forgets_raisingTools, keepsFlag_raisingTools, rfl, by decide⟩

end RuleBuild
