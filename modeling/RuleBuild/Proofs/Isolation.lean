import Mathlib.Data.List.Forall2
import RuleBuild.Proofs.BuildMarkers
import RuleBuild.Proofs.FullBuild

/-!
# Failures stay with their artifact

Whatever becomes of the attempts to compile one artifact, the reports and the markers of all others
are the same; and a failed attempt, like a breakdown, is one error with something to read in it.
-/
namespace RuleBuild

/-! ## Failures have a text -/

namespace Text

theorem mem_trimChars {cs : List Char} {c : Char} (hmem : c ∈ cs) (hc : isBlank c = false) :
    c ∈ trimChars cs := by
  have hdrop {ds : List Char} (hds : c ∈ ds) : c ∈ ds.dropWhile isBlank := by
    rw [← List.takeWhile_append_dropWhile (p := isBlank) (l := ds)] at hds
    rcases List.mem_append.mp hds with htaken | hkept
    · simp [List.mem_takeWhile_imp htaken] at hc
    · exact hkept
  rw [trimChars, List.mem_reverse]
  exact hdrop (List.mem_reverse.mpr (hdrop hmem))

theorem isBlankText_trim (s : String) : isBlankText (trim s) = isBlankText s := by
  cases hs : isBlankText s with
  | true =>
      rw [isBlankText, List.all_eq_true] at hs ⊢
      intro c hc
      rw [trim, String.toList_ofList, trimChars, List.mem_reverse] at hc
      have hkept := List.mem_reverse.mp ((List.dropWhile_sublist isBlank).subset hc)
      exact hs c ((List.dropWhile_sublist isBlank).subset hkept)
  | false =>
      obtain ⟨c, hmem, hc⟩ := List.all_eq_false.mp hs
      have hblank : isBlank c = false := by simpa using hc
      rw [isBlankText, List.all_eq_false]
      exact ⟨c, by rw [trim, String.toList_ofList]; exact mem_trimChars hmem hblank, hc⟩

end Text

theorem isBlankText_failureText (kind : String) (message : Option String) :
    Text.isBlankText (failureText kind message) = false := by
  have hkind : Text.isBlankText ("Error: " ++ kind) = false := by
    rw [Text.isBlankText, String.toList_append, List.all_append]
    have hword : "Error: ".toList.all Text.isBlank = false := by decide
    rw [hword, Bool.false_and]
  cases message with
  | none => exact hkind
  | some m =>
      rw [failureText]
      split
      · exact hkind
      · rename_i hm
        rw [Text.isBlankText_trim]
        simpa using hm

theorem Attempt.diagnostics_of_not_done {attempt : Attempt Outcome} (h : ∀ o, attempt ≠ .done o) :
    ∃ message, attempt.outcome.diagnostics = [.error message none] ∧
      Text.isBlankText message = false := by
  cases attempt with
  | done o => exact absurd rfl (h o)
  | failed e => exact ⟨_, rfl, isBlankText_failureText ..⟩
  | brokeDown message => exact ⟨_, rfl, isBlankText_failureText ..⟩

/-! ## Attempts and reports -/

namespace Tools

variable {T : Type}

/-- What became of the attempts to compile, in the order of the paths visited. -/
def attempts (tools : Tools T) (s : BuildSettings) (fs : FileSystem) (t : T) :
    List Path → List (Artifact × Attempt Outcome)
  | [] => []
  | p :: ps =>
    let t := tools.meanwhile t
    if tools.cancelled t then []
    else
      match s.compiled? fs p with
      | some a =>
        (a, (tools.attempt fs a t).1) :: tools.attempts s fs (tools.attempt fs a t).2 ps
      | none => tools.attempts s fs t ps

def buildAttempts (tools : Tools T) (s : BuildSettings) (fs : FileSystem) (kind : BuildKind)
    (t : T) : List (Artifact × Attempt Outcome) :=
  match s.candidates? fs kind with
  | some ps => tools.attempts s fs t ps
  | none => []

end Tools

/-- Whether a report is the one that an attempt leads to. -/
structure ArtifactReport.IsOf (r : ArtifactReport) (e : Artifact × Attempt Outcome) : Prop where
  subject : r.subject = (e.1.id, some e.1.kind, false)
  diagnostics : r.diagnostics = e.2.outcome.diagnostics

/-- Whether two reports say the same, or differ in the diagnostics of one artifact. -/
structure ArtifactReport.AgreesExcept (x : String) (r r' : ArtifactReport) : Prop where
  subject : r.subject = r'.subject
  diagnostics : r.artifact ≠ x → r.diagnostics = r'.diagnostics

theorem ArtifactReport.AgreesExcept.refl (x : String) (r : ArtifactReport) : AgreesExcept x r r :=
  ⟨rfl, fun _ => rfl⟩

theorem BuildSettings.kind_of_gone? {s : BuildSettings} {fs : FileSystem} {p : Path}
    {r : ArtifactReport} (h : s.gone? fs p = some r) : r.kind = none := by
  obtain ⟨_, _, rfl⟩ := Option.map_eq_some_iff.mp h
  rfl

namespace Tools

variable {T U : Type} {s : BuildSettings} {fs : FileSystem}

/-- The reports with a kind are those of the attempts. -/
theorem tour_attempts (tools : Tools T) (s : BuildSettings) (fs : FileSystem) (t : T)
    (ps : List Path) :
    List.Forall₂ ArtifactReport.IsOf
      ((tools.tour s fs t ps).reports.filter (·.kind.isSome)) (tools.attempts s fs t ps) := by
  induction ps generalizing t with
  | nil => exact .nil
  | cons p ps ih =>
      rw [tour, attempts]
      split
      · exact .nil
      · rw [visit_eq]
        cases hcompiled : s.compiled? fs p with
        | some a => exact .cons ⟨rfl, rfl⟩ (ih _)
        | none =>
            cases hgone : s.gone? fs p with
            | none => exact ih _
            | some r =>
                have hkind := BuildSettings.kind_of_gone? hgone
                simpa [hkind] using ih (tools.meanwhile t)

/-- Two tours of the same paths, neither cut short, whose attempts agree except for one artifact,
agree in their reports except for that artifact. -/
theorem tours_agreeExcept {tools : Tools T} {tools' : Tools U} {t : T} {u : U} {ps : List Path}
    {x : String} (hrun : (tools.tour s fs t ps).cancelled = false)
    (hrun' : (tools'.tour s fs u ps).cancelled = false)
    (hattempts : (tools.attempts s fs t ps).filter (·.1.id ≠ x) =
      (tools'.attempts s fs u ps).filter (·.1.id ≠ x)) :
    List.Forall₂ (ArtifactReport.AgreesExcept x) (tools.tour s fs t ps).reports
      (tools'.tour s fs u ps).reports := by
  induction ps generalizing t u with
  | nil => exact .nil
  | cons p ps ih =>
      obtain ⟨hgoing, hrest⟩ := going_of_tour_cons hrun
      obtain ⟨hgoing', hrest'⟩ := going_of_tour_cons hrun'
      rw [tour_cons hgoing, tour_cons hgoing']
      rw [attempts, hgoing, attempts, hgoing'] at hattempts
      simp only [visit_eq] at hrest hrest' ⊢
      cases hcompiled : s.compiled? fs p with
      | none =>
          simp only [hcompiled, Bool.false_eq_true, ↓reduceIte] at hrest hrest' hattempts ⊢
          refine List.rel_append ?_ (ih hrest hrest' hattempts)
          exact List.forall₂_same.mpr fun r _ => .refl x r
      | some a =>
          simp only [hcompiled, Bool.false_eq_true, ↓reduceIte] at hrest hrest' hattempts ⊢
          -- An attempt about the artifact may have any outcome; any other is the same in both.
          by_cases ha : a.id = x
          · rw [List.filter_cons_of_neg (by simp [ha]),
              List.filter_cons_of_neg (by simp [ha])] at hattempts
            exact .cons ⟨rfl, fun hne => absurd ha hne⟩ (ih hrest hrest' hattempts)
          · rw [List.filter_cons_of_pos (by simpa using ha),
              List.filter_cons_of_pos (by simpa using ha), List.cons.injEq] at hattempts
            obtain ⟨hsame, hothers⟩ := hattempts
            have hresult := (Prod.mk.inj hsame).2
            exact .cons ⟨rfl, fun _ => congrArg (·.outcome.diagnostics) hresult⟩
              (ih hrest hrest' hothers)

end Tools

/-! ## Markers -/

/-- Reports that agree except for one artifact leave the same markers of every other. -/
theorem ProblemList.getElem?_renewAll_congr {l l' : ProblemList}
    {reports reports' : List ArtifactReport} {x id : String}
    (hcategory : l.category = l'.category) (hentry : l.markers[id]? = l'.markers[id]?)
    (hid : id ≠ x) (h : List.Forall₂ (ArtifactReport.AgreesExcept x) reports reports') :
    (l.renewAll reports).markers[id]? = (l'.renewAll reports').markers[id]? := by
  induction h generalizing l l' with
  | nil => exact hentry
  | @cons r r' rs rs' hr _ ih =>
      rw [renewAll, renewAll, List.foldl_cons, List.foldl_cons]
      apply ih
      · rw [category_renew, category_renew, hcategory]
      · have hartifact : r.artifact = r'.artifact := congrArg (·.1) hr.subject
        by_cases hr' : r.artifact = x
        · have hne : r.artifact ≠ id := fun heq => hid (heq.symm.trans hr')
          rw [getElem?_renew_of_ne _ hne, getElem?_renew_of_ne _ (hartifact ▸ hne), hentry]
        · rw [← hartifact, ← hr.diagnostics hr']
          exact getElem?_renew_congr hcategory hentry ..

/-! ## Builds -/

variable {T U : Type}

/-- Each attempt to compile has its report, and one that fails or breaks down is reported by a
single error, with a text and without a line. Two builds of the same files, neither cancelled, whose
attempts differ only for one artifact report the same in the same order, except for what they say of
that artifact, and leave every other with the same markers. -/
theorem failures_stay_with_artifact (s : BuildSettings) (tools : Tools T) (tools' : Tools U)
    (fs : FileSystem) (kind : BuildKind) (l : ProblemList) (t : T) (u : U) :
    let pass := build s tools fs kind l t
    let pass' := build s tools' fs kind l u
    List.Forall₂ (fun r e => ArtifactReport.IsOf r e ∧
          ((∀ o, e.2 ≠ .done o) → ∃ message, r.diagnostics = [.error message none] ∧
            Text.isBlankText message = false))
        (pass.result.artifacts.filter (·.kind.isSome)) (tools.buildAttempts s fs kind t) ∧
      ∀ x, pass.result.summary.cancelled = false → pass'.result.summary.cancelled = false →
        (tools.buildAttempts s fs kind t).filter (·.1.id ≠ x) =
          (tools'.buildAttempts s fs kind u).filter (·.1.id ≠ x) →
        List.Forall₂ (ArtifactReport.AgreesExcept x) pass.result.artifacts
            pass'.result.artifacts ∧
          ∀ id, id ≠ x → pass.recorded.store.markers[id]? = pass'.recorded.store.markers[id]? := by
  intro pass pass'
  constructor
  · have hreports : List.Forall₂ ArtifactReport.IsOf
        (pass.result.artifacts.filter (·.kind.isSome)) (tools.buildAttempts s fs kind t) := by
      simp only [pass, build_artifacts, Tools.buildTour, Tools.buildAttempts]
      cases s.candidates? fs kind with
      | some ps => exact tools.tour_attempts s fs t ps
      | none => exact .nil
    refine hreports.imp fun r e hr => ⟨hr, fun hfailed => ?_⟩
    rw [hr.diagnostics]
    exact Attempt.diagnostics_of_not_done hfailed
  · intro x hrun hrun' hattempts
    have hreports : List.Forall₂ (ArtifactReport.AgreesExcept x)
        (tools.buildTour s fs kind t).reports (tools'.buildTour s fs kind u).reports := by
      simp only [pass, pass', build_cancelled, Tools.buildTour] at hrun hrun'
      simp only [Tools.buildAttempts] at hattempts
      simp only [Tools.buildTour]
      cases hcandidates : s.candidates? fs kind with
      | some ps =>
          simp only [hcandidates] at hrun hrun' hattempts
          exact Tools.tours_agreeExcept hrun hrun' hattempts
      | none => exact List.forall₂_same.mpr fun r _ => .refl x r
    constructor
    · simpa only [pass, pass', build_artifacts] using hreports
    · intro id hid
      simp only [pass, pass', build_recorded_list]
      exact ProblemList.getElem?_renewAll_congr rfl rfl hid hreports

/-- Tools whose compiler always breaks down. -/
def breakingTools : Tools Unit where
  compile _ _ t := (.brokeDown none, t)
  convert := none
  cancelled _ := false

/-- A rule text breaks the compiler, and the file after it, which is gone, is reported all the
same. -/
theorem breakdown_stays_with_rule :
    let s := BuildSettings.ofDirectory "rules" none
    let fs := FileSystem.ofOneRule "rules" (by decide)
    let kind := BuildKind.incremental (some [⟨["x.drl"]⟩, ⟨["gone.drl"]⟩])
    let l := (ProblemList.empty "drlbuild.problem").push "gone.drl" (.error "stale" none)
    let pass := build s acceptingTools fs kind l ()
    let pass' := build s breakingTools fs kind l ()
    pass.result.summary.cancelled = false ∧ pass'.result.summary.cancelled = false ∧
      (acceptingTools.buildAttempts s fs kind ()).filter (·.1.id ≠ "x.drl") =
        (breakingTools.buildAttempts s fs kind ()).filter (·.1.id ≠ "x.drl") ∧
      pass'.result.artifacts.map ArtifactReport.subject =
        [("x.drl", some .ruleText, false), ("gone.drl", none, true)] ∧
      List.Forall₂ (ArtifactReport.AgreesExcept "x.drl") pass.result.artifacts
        pass'.result.artifacts ∧
      pass.recorded.store.markers["gone.drl"]? = pass'.recorded.store.markers["gone.drl"]? := by
  intro s fs kind l pass pass'
  have hrun : pass.result.summary.cancelled = false := build_not_cancelled (fun _ => rfl) ..
  have hrun' : pass'.result.summary.cancelled = false := build_not_cancelled (fun _ => rfl) ..
  have hattempts : (acceptingTools.buildAttempts s fs kind ()).filter (·.1.id ≠ "x.drl") =
      (breakingTools.buildAttempts s fs kind ()).filter (·.1.id ≠ "x.drl") := by rfl
  have hsubjects : pass'.result.artifacts.map ArtifactReport.subject =
      [("x.drl", some .ruleText, false), ("gone.drl", none, true)] := by decide
  obtain ⟨hreports, hmarkers⟩ :=
    (failures_stay_with_artifact s acceptingTools breakingTools fs kind l () ()).2 "x.drl"
      hrun hrun' hattempts
  exact ⟨hrun, hrun', hattempts, hsubjects, hreports, hmarkers "gone.drl" (by decide)⟩

end RuleBuild
