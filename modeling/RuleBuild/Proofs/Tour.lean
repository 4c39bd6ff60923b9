import RuleBuild.Build
import RuleBuild.Proofs.StoreCalls

/-!
# What a build reports, without a store

A build compiles, reports and records in turn. The reports alone are computed here, from the paths
that are visited and the memory of the tools; no store occurs. Main statement: a build is such a
tour, whose reports are recorded in order (`build_result`, `build_recorded`).
-/
namespace RuleBuild

/-- The reports of a sequence of visits, the memory of the tools after them, and whether they were
cut short. -/
structure Tour (T : Type) where
  reports : List ArtifactReport
  tools : T
  cancelled : Bool

/-- What a report says apart from the diagnostics: the artifact, its kind, and whether it is
gone. -/
def ArtifactReport.subject (r : ArtifactReport) : String × Option ArtifactKind × Bool :=
  (r.artifact, r.kind, r.removed)

/-- What a visit of a path says apart from the diagnostics, if anything. -/
def BuildSettings.subject? (s : BuildSettings) (fs : FileSystem) (p : Path) :
    Option (String × Option ArtifactKind × Bool) :=
  if s.isExcluded p then none
  else
    (Artifact.ofPath? s.root p).map fun a =>
      if fs.hasPath p then (a.id, some a.kind, false) else (a.id, none, true)

theorem BuildSettings.subject?_eq_some {s : BuildSettings} {fs : FileSystem} {p : Path}
    {x : String × Option ArtifactKind × Bool} (h : s.subject? fs p = some x) :
    ∃ a, Artifact.ofPath? s.root p = some a ∧ x.1 = a.id := by
  unfold subject? at h
  split at h
  · cases h
  · obtain ⟨a, ha, rfl⟩ := Option.map_eq_some_iff.mp h
    refine ⟨a, ha, ?_⟩
    split
    · rfl
    · rfl

/-- The artifact that a visit of a path compiles, if any. -/
def BuildSettings.compiled? (s : BuildSettings) (fs : FileSystem) (p : Path) : Option Artifact :=
  if s.isExcluded p then none
  else (Artifact.ofPath? s.root p).filter fun _ => fs.hasPath p

theorem BuildSettings.compiled?_eq_some_iff {s : BuildSettings} {fs : FileSystem} {p : Path}
    {a : Artifact} :
    s.compiled? fs p = some a ↔
      s.isExcluded p = false ∧ Artifact.ofPath? s.root p = some a ∧ fs.hasPath p = true := by
  rw [compiled?]
  split
  · rename_i hout
    simp [hout]
  · rename_i hin
    simp [hin, Option.filter_eq_some_iff]

/-- What is said of a path that leads somewhere is said of what is compiled. -/
theorem BuildSettings.compiled?_eq (s : BuildSettings) (fs : FileSystem) (p : Path) :
    s.compiled? fs p =
      (s.subject? fs p).bind fun x => x.2.1.map fun kind => ⟨x.1, p, kind⟩ := by
  unfold compiled? subject? Artifact.ofPath?
  by_cases hout : s.isExcluded p = true
  · simp [hout]
  · simp only [hout]
    cases ArtifactKind.ofPath? p with
    | none => rfl
    | some kind =>
        cases hp : fs.hasPath p with
        | true => rfl
        | false => rfl

/-- What is not compiled is reported as gone, if there is anything to say of it. -/
def BuildSettings.gone? (s : BuildSettings) (fs : FileSystem) (p : Path) : Option ArtifactReport :=
  (s.subject? fs p).map fun x => ⟨x.1, none, [], true⟩

namespace Tools

variable {T : Type}

def visit (tools : Tools T) (s : BuildSettings) (fs : FileSystem) (t : T) (p : Path) :
    Option ArtifactReport × T :=
  if s.isExcluded p then (none, t)
  else
    match Artifact.ofPath? s.root p with
    | none => (none, t)
    | some a =>
      if fs.hasPath p then
        let (o, t) := tools.outcome fs a t
        (some ⟨a.id, some a.kind, o.diagnostics, false⟩, t)
      else (some ⟨a.id, none, Outcome.clean.diagnostics, true⟩, t)

/-- The reports of paths visited one after the other. -/
def tour (tools : Tools T) (s : BuildSettings) (fs : FileSystem) (t : T) : List Path → Tour T
  | [] => ⟨[], t, false⟩
  | p :: ps =>
    let t := tools.meanwhile t
    if tools.cancelled t then ⟨[], t, true⟩
    else
      let (report, t) := tools.visit s fs t p
      let rest := tools.tour s fs t ps
      { rest with reports := report.toList ++ rest.reports }

def failureReport (root : Path) : ArtifactReport :=
  ⟨projectId, none, (buildFailure root).diagnostics, false⟩

def buildTour (tools : Tools T) (s : BuildSettings) (fs : FileSystem) (kind : BuildKind) (t : T) :
    Tour T :=
  match s.candidates? fs kind with
  | some ps => tools.tour s fs t ps
  | none => ⟨[failureReport s.root], t, false⟩

/-- A visit compiles an artifact, or leaves the tools alone. -/
theorem visit_eq (tools : Tools T) (s : BuildSettings) (fs : FileSystem) (t : T) (p : Path) :
    tools.visit s fs t p =
      match s.compiled? fs p with
      | some a =>
        (some ⟨a.id, some a.kind, (tools.attempt fs a t).1.outcome.diagnostics, false⟩,
          (tools.attempt fs a t).2)
      | none => (s.gone? fs p, t) := by
  unfold visit BuildSettings.gone? BuildSettings.compiled? BuildSettings.subject?
  by_cases hout : s.isExcluded p = true
  · simp [hout]
  · simp only [hout]
    cases Artifact.ofPath? s.root p with
    | none => rfl
    | some a =>
        cases hp : fs.hasPath p with
        | true => rfl
        | false => rfl

/-- What the report of a visit says apart from the diagnostics is settled by the files alone. -/
theorem visit_subject (tools : Tools T) (s : BuildSettings) (fs : FileSystem) (t : T) (p : Path) :
    (tools.visit s fs t p).1.map ArtifactReport.subject = s.subject? fs p := by
  unfold visit BuildSettings.subject?
  by_cases hout : s.isExcluded p = true
  · simp only [hout, ↓reduceIte]
    rfl
  · simp only [hout]
    cases Artifact.ofPath? s.root p with
    | none => rfl
    | some a =>
        by_cases hp : fs.hasPath p = true
        · simp only [hp, ↓reduceIte]
          rfl
        · simp only [hp]
          rfl

theorem tour_cons {tools : Tools T} {t : T} (h : tools.cancelled (tools.meanwhile t) = false)
    (s : BuildSettings) (fs : FileSystem) (p : Path) (ps : List Path) :
    tools.tour s fs t (p :: ps) =
      let visit := tools.visit s fs (tools.meanwhile t) p
      let rest := tools.tour s fs visit.2 ps
      { rest with reports := visit.1.toList ++ rest.reports } := by
  rw [tour, h]
  rfl

/-- A tour that is not cut short goes on at its first path, and after it. -/
theorem going_of_tour_cons {tools : Tools T} {s : BuildSettings} {fs : FileSystem} {t : T}
    {p : Path} {ps : List Path} (h : (tools.tour s fs t (p :: ps)).cancelled = false) :
    tools.cancelled (tools.meanwhile t) = false ∧
      (tools.tour s fs (tools.visit s fs (tools.meanwhile t) p).2 ps).cancelled = false := by
  cases hgoing : tools.cancelled (tools.meanwhile t) with
  | true => simp [tour, hgoing] at h
  | false =>
      rw [tour_cons hgoing] at h
      exact ⟨rfl, h⟩

/-- After a tour that is not cut short, further paths are toured with what the tools remember. -/
theorem tour_append {tools : Tools T} {s : BuildSettings} {fs : FileSystem} {t : T}
    {ps : List Path} (h : (tools.tour s fs t ps).cancelled = false) (qs : List Path) :
    tools.tour s fs t (ps ++ qs) =
      let rest := tools.tour s fs (tools.tour s fs t ps).tools qs
      { rest with reports := (tools.tour s fs t ps).reports ++ rest.reports } := by
  induction ps generalizing t with
  | nil => rfl
  | cons p ps ih =>
      obtain ⟨hgoing, hrest⟩ := going_of_tour_cons h
      rw [List.cons_append, tour_cons hgoing, tour_cons hgoing]
      simp only [ih hrest, List.append_assoc]

/-- A tour that is not cut short reports on every path that there is something to say of. -/
theorem tour_subjects {tools : Tools T} {s : BuildSettings} {fs : FileSystem} {t : T}
    {ps : List Path} (h : (tools.tour s fs t ps).cancelled = false) :
    (tools.tour s fs t ps).reports.map ArtifactReport.subject = ps.filterMap (s.subject? fs) := by
  induction ps generalizing t with
  | nil => rfl
  | cons p ps ih =>
      rw [tour] at h ⊢
      split at h
      · cases h
      · rename_i hgoing
        rw [if_neg hgoing]
        simp only [List.map_append, ih h]
        rw [List.filterMap_cons, ← tools.visit_subject s fs (tools.meanwhile t) p]
        cases (tools.visit s fs (tools.meanwhile t) p).1 with
        | none => rfl
        | some r => rfl

theorem tour_not_cancelled {tools : Tools T} (h : ∀ t, tools.cancelled t = false)
    (s : BuildSettings) (fs : FileSystem) (t : T) (ps : List Path) :
    (tools.tour s fs t ps).cancelled = false := by
  induction ps generalizing t with
  | nil => rfl
  | cons p ps ih =>
      rw [tour, h]
      exact ih _

/-- Every report of a tour is about one of its paths. -/
theorem mem_tour {tools : Tools T} {s : BuildSettings} {fs : FileSystem} {t : T} {ps : List Path}
    {r : ArtifactReport} (h : r ∈ (tools.tour s fs t ps).reports) :
    ∃ p ∈ ps, s.subject? fs p = some r.subject := by
  induction ps generalizing t with
  | nil => cases h
  | cons p ps ih =>
      simp only [tour] at h
      split at h
      · cases h
      · rcases List.mem_append.mp h with h | h
        · refine ⟨p, List.mem_cons_self, ?_⟩
          rw [← tools.visit_subject s fs (tools.meanwhile t) p, Option.mem_toList.mp h]
          rfl
        · obtain ⟨q, hq, hsubject⟩ := ih h
          exact ⟨q, List.mem_cons_of_mem _ hq, hsubject⟩

end Tools

/-! ## Results of tours -/

namespace BuildResult

variable {T : Type}

def conclude (r : BuildResult) (tour : Tour T) : BuildResult :=
  let pushed := tour.reports.foldl push r
  { pushed with
    summary := { pushed.summary with cancelled := pushed.summary.cancelled || tour.cancelled } }

@[simp] theorem push_artifacts (r : BuildResult) (report : ArtifactReport) :
    (r.push report).artifacts = r.artifacts ++ [report] := rfl

@[simp] theorem push_cancelled (r : BuildResult) (report : ArtifactReport) :
    (r.push report).summary.cancelled = r.summary.cancelled := rfl

theorem foldl_push_artifacts (r : BuildResult) (reports : List ArtifactReport) :
    (reports.foldl push r).artifacts = r.artifacts ++ reports := by
  induction reports generalizing r with
  | nil => simp
  | cons x xs ih => simp [ih]

theorem foldl_push_cancelled (r : BuildResult) (reports : List ArtifactReport) :
    (reports.foldl push r).summary.cancelled = r.summary.cancelled := by
  induction reports generalizing r with
  | nil => rfl
  | cons x xs ih => simp [ih]

theorem conclude_artifacts (r : BuildResult) (tour : Tour T) :
    (r.conclude tour).artifacts = r.artifacts ++ tour.reports :=
  foldl_push_artifacts r tour.reports

theorem conclude_cancelled (r : BuildResult) (tour : Tour T) :
    (r.conclude tour).summary.cancelled = (r.summary.cancelled || tour.cancelled) := by
  simp [conclude, foldl_push_cancelled]

end BuildResult

/-- Whether the numbers of a result are those of its reports. -/
structure BuildResult.IsCounted (r : BuildResult) : Prop where
  errors : r.summary.errors = countErrors (r.artifacts.flatMap (·.diagnostics))
  artifacts : r.summary.artifacts = r.artifacts.countP fun a => ! a.removed
  removed : r.summary.removed = r.artifacts.countP fun a => a.removed

namespace BuildResult.IsCounted

theorem empty : IsCounted .empty := ⟨rfl, rfl, rfl⟩

theorem push {r : BuildResult} (h : r.IsCounted) (report : ArtifactReport) :
    (r.push report).IsCounted where
  errors := by simp [BuildResult.push, h.errors, countErrors]
  artifacts := by
    cases hremoved : report.removed with
    | true => simp [BuildResult.push, hremoved, h.artifacts, List.countP_append]
    | false => simp [BuildResult.push, hremoved, h.artifacts, List.countP_append]
  removed := by
    cases hremoved : report.removed with
    | true => simp [BuildResult.push, hremoved, h.removed, List.countP_append]
    | false => simp [BuildResult.push, hremoved, h.removed, List.countP_append]

theorem conclude {T : Type} {r : BuildResult} (h : r.IsCounted) (tour : Tour T) :
    (r.conclude tour).IsCounted := by
  have hpushed : (tour.reports.foldl BuildResult.push r).IsCounted := by
    induction tour.reports generalizing r with
    | nil => exact h
    | cons x xs ih => exact ih (h.push x)
  exact ⟨hpushed.errors, hpushed.artifacts, hpushed.removed⟩

end BuildResult.IsCounted

/-! ## Builds as tours -/

namespace Pass

variable {S T : Type} [ProblemStore S]

/-- The pass after a tour whose reports have been recorded. -/
def follow (pass : Pass S T) (tour : Tour T) : Pass S T :=
  ⟨pass.recorded.follow (tour.reports.flatMap ArtifactReport.calls), tour.tools,
    pass.result.conclude tour⟩

theorem report_eq_follow (pass : Pass S T) (id : String) (kind : Option ArtifactKind)
    (removed : Bool) (o : Outcome) :
    pass.report id kind removed o =
      pass.follow ⟨[⟨id, kind, o.diagnostics, removed⟩], pass.tools, false⟩ := by
  simp only [report, follow, Recorded.report, Recorded.replace_eq_follow, ArtifactReport.calls,
    BuildResult.conclude, List.flatMap_cons, List.flatMap_nil, List.append_nil, List.foldl_cons,
    List.foldl_nil, Bool.or_false]

theorem visit_eq_follow (pass : Pass S T) (s : BuildSettings) (tools : Tools T) (fs : FileSystem)
    (p : Path) :
    pass.visit s tools fs p =
      pass.follow ⟨(tools.visit s fs pass.tools p).1.toList,
        (tools.visit s fs pass.tools p).2, false⟩ := by
  have hnone : pass = pass.follow ⟨[], pass.tools, false⟩ := by
    simp [follow, BuildResult.conclude]
  unfold visit Tools.visit
  by_cases hout : s.isExcluded p = true
  · simp only [hout, ↓reduceIte]
    exact hnone
  · simp only [hout]
    cases Artifact.ofPath? s.root p with
    | none => exact hnone
    | some a =>
        by_cases hp : fs.hasPath p = true
        · simp only [hp, ↓reduceIte]
          exact report_eq_follow ..
        · simp only [hp]
          exact report_eq_follow ..

theorem follow_follow (pass : Pass S T) (reports : List ArtifactReport) (t : T) (tour : Tour T) :
    (pass.follow ⟨reports, t, false⟩).follow tour =
      pass.follow { tour with reports := reports ++ tour.reports } := by
  simp [follow, Recorded.follow_append, BuildResult.conclude]

/-- Visiting paths records the reports of the tour through them. -/
theorem visitAll_eq_follow (pass : Pass S T) (s : BuildSettings) (tools : Tools T)
    (fs : FileSystem) (ps : List Path) :
    pass.visitAll s tools fs ps = pass.follow (tools.tour s fs pass.tools ps) := by
  induction ps generalizing pass with
  | nil => simp [visitAll, Tools.tour, follow, BuildResult.conclude]
  | cons p ps ih =>
      simp only [visitAll, Tools.tour]
      split
      · simp [cancel, follow, BuildResult.conclude]
      · rw [ih, visit_eq_follow, follow_follow]
        rfl

end Pass

variable {S T : Type} [ProblemStore S]

/-- The calls that a build makes: those about the project first, then those of its reports. -/
def buildCalls (reports : List ArtifactReport) : List StoreCall :=
  .clear projectId :: reports.flatMap ArtifactReport.calls

theorem build_result (s : BuildSettings) (tools : Tools T) (fs : FileSystem) (kind : BuildKind)
    (store : S) (t : T) :
    (build s tools fs kind store t).result =
      BuildResult.empty.conclude (tools.buildTour s fs kind t) := by
  unfold build Tools.buildTour
  cases s.candidates? fs kind with
  | some ps => simp only [Pass.visitAll_eq_follow, Pass.follow]
  | none => rfl

theorem build_tools (s : BuildSettings) (tools : Tools T) (fs : FileSystem) (kind : BuildKind)
    (store : S) (t : T) :
    (build s tools fs kind store t).tools = (tools.buildTour s fs kind t).tools := by
  unfold build Tools.buildTour
  cases s.candidates? fs kind with
  | some ps => simp only [Pass.visitAll_eq_follow, Pass.follow]
  | none => rfl

theorem build_artifacts (s : BuildSettings) (tools : Tools T) (fs : FileSystem) (kind : BuildKind)
    (store : S) (t : T) :
    (build s tools fs kind store t).result.artifacts = (tools.buildTour s fs kind t).reports := by
  rw [build_result, BuildResult.conclude_artifacts]
  rfl

theorem build_cancelled (s : BuildSettings) (tools : Tools T) (fs : FileSystem) (kind : BuildKind)
    (store : S) (t : T) :
    (build s tools fs kind store t).result.summary.cancelled =
      (tools.buildTour s fs kind t).cancelled := by
  rw [build_result, BuildResult.conclude_cancelled]
  rfl

theorem build_isCounted (s : BuildSettings) (tools : Tools T) (fs : FileSystem)
    (kind : BuildKind) (store : S) (t : T) :
    (build s tools fs kind store t).result.IsCounted := by
  rw [build_result]
  exact BuildResult.IsCounted.empty.conclude _

/-- A build that is never found cancelled runs to its end. -/
theorem build_not_cancelled {tools : Tools T} (h : ∀ t, tools.cancelled t = false)
    (s : BuildSettings) (fs : FileSystem) (kind : BuildKind) (store : S) (t : T) :
    (build s tools fs kind store t).result.summary.cancelled = false := by
  rw [build_cancelled, Tools.buildTour]
  split
  · exact Tools.tour_not_cancelled h ..
  · rfl

/-- The store after a build, and the warnings: a failed traversal is warned about between the calls
for the project and those for the report of the failure. -/
theorem build_recorded (s : BuildSettings) (tools : Tools T) (fs : FileSystem) (kind : BuildKind)
    (store : S) (t : T) :
    (build s tools fs kind store t).recorded =
      let first := (Recorded.mk store []).follow [.clear projectId]
      let before :=
        if (s.candidates? fs kind).isSome then first
        else { first with warnings := first.warnings ++ [.buildFailed s.root] }
      before.follow ((tools.buildTour s fs kind t).reports.flatMap ArtifactReport.calls) := by
  have hclean : (Recorded.mk store []).report projectId .clean =
      (Recorded.mk store []).follow [.clear projectId] :=
    Recorded.replace_eq_follow ..
  unfold build Tools.buildTour
  cases s.candidates? fs kind with
  | some ps => simp [Pass.visitAll_eq_follow, Pass.follow, hclean]
  | none => simp [Pass.report_eq_follow, Pass.follow, hclean, Tools.failureReport]

end RuleBuild
