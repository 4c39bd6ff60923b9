import Mathlib.Data.List.Nodup
import RuleBuild.Proofs.BuildCalls
import RuleBuild.Proofs.Identity
import RuleBuild.Proofs.ProblemList.History

/-!
# What a build leaves in a problem list

A build replaces the problems of the project and of every artifact it reports, and touches nothing
else: neither other artifacts nor the markers of other tools.
-/
namespace RuleBuild

theorem projectId_ne_empty : projectId ≠ "" := by decide

namespace ProblemList

/-- The list after reports have been recorded one after the other. -/
def renewAll (l : ProblemList) (reports : List ArtifactReport) : ProblemList :=
  reports.foldl (fun l r => l.renew r.artifact r.diagnostics) l

theorem renewAll_append (l : ProblemList) (reports reports' : List ArtifactReport) :
    l.renewAll (reports ++ reports') = (l.renewAll reports).renewAll reports' :=
  List.foldl_append

@[simp] theorem category_renewAll (l : ProblemList) (reports : List ArtifactReport) :
    (l.renewAll reports).category = l.category := by
  unfold renewAll
  induction reports generalizing l with
  | nil => rfl
  | cons r rs ih => rw [List.foldl_cons, ih, category_renew]

theorem othersOf_renewAll (l : ProblemList) (reports : List ArtifactReport) (id : String) :
    (l.renewAll reports).othersOf id = l.othersOf id := by
  unfold renewAll
  induction reports generalizing l with
  | nil => rfl
  | cons r rs ih => rw [List.foldl_cons, ih, othersOf_renew]

theorem getElem?_renewAll_of_not_reported (l : ProblemList) {reports : List ArtifactReport}
    {id : String} (h : ∀ r ∈ reports, r.artifact ≠ id) :
    (l.renewAll reports).markers[id]? = l.markers[id]? := by
  unfold renewAll
  induction reports generalizing l with
  | nil => rfl
  | cons r rs ih =>
      obtain ⟨hr, hrs⟩ := List.forall_mem_cons.mp h
      rw [List.foldl_cons, ih _ hrs, getElem?_renew_of_ne l hr]

theorem problems_renewAll_of_not_reported (l : ProblemList) {reports : List ArtifactReport}
    {id : String} (h : ∀ r ∈ reports, r.artifact ≠ id) :
    (l.renewAll reports).problems id = l.problems id := by
  rw [problems, problems, markersOf, markersOf, getElem?_renewAll_of_not_reported l h,
    category_renewAll]

/-- What is reported has a last report. -/
theorem exists_last_report {reports : List ArtifactReport} {id : String}
    (h : ∃ r ∈ reports, r.artifact = id) :
    ∃ before r since, reports = before ++ r :: since ∧ r.artifact = id ∧
      ∀ q ∈ since, q.artifact ≠ id := by
  rcases none_or_last (fun q : ArtifactReport => decide (q.artifact = id)) reports with
    hnone | ⟨before, r, since, hsplit, hr, hsince⟩
  · obtain ⟨r, hr, hid⟩ := h
    exact absurd hid (by simpa using hnone r hr)
  · exact ⟨before, r, since, hsplit, by simpa using hr, fun q hq => by simpa using hsince q hq⟩

/-- The last report of an artifact decides which problems it has. -/
theorem problems_renewAll_of_last (l : ProblemList) (before : List ArtifactReport)
    (r : ArtifactReport) {since : List ArtifactReport}
    (h : ∀ q ∈ since, q.artifact ≠ r.artifact) :
    (l.renewAll (before ++ r :: since)).problems r.artifact = r.diagnostics := by
  have hsplit : l.renewAll (before ++ r :: since) =
      ((l.renewAll before).renew r.artifact r.diagnostics).renewAll since :=
    renewAll_append ..
  rw [hsplit, problems_renewAll_of_not_reported _ h, problems_renew, if_pos rfl]

/-- Reports leave an entry as a function of the entry before them. -/
theorem getElem?_renewAll_of_entry {l l' : ProblemList} {id : String}
    (hcategory : l.category = l'.category) (hentry : l.markers[id]? = l'.markers[id]?)
    (reports : List ArtifactReport) :
    (l.renewAll reports).markers[id]? = (l'.renewAll reports).markers[id]? := by
  unfold renewAll
  induction reports generalizing l l' with
  | nil => exact hentry
  | cons r rs ih =>
      rw [List.foldl_cons, List.foldl_cons]
      apply ih
      · rw [category_renew, category_renew, hcategory]
      · exact getElem?_renew_congr hcategory hentry ..

theorem getElem?_clear_renewAll (l : ProblemList) (reports : List ArtifactReport) (id : String) :
    ((l.renewAll reports).clear id).markers[id]? = (l.clear id).markers[id]? := by
  unfold renewAll
  induction reports generalizing l with
  | nil => rfl
  | cons r rs ih =>
      rw [List.foldl_cons, ih]
      by_cases hid : r.artifact = id
      · rw [← hid, getElem?_clear_renew]
      · rw [getElem?_clear, getElem?_clear, if_pos rfl, if_pos rfl, category_renew,
          getElem?_renew_of_ne l hid]

/-- The last report of an artifact leaves the markers that it would leave alone. -/
theorem getElem?_renewAll_of_last (l : ProblemList) (before : List ArtifactReport)
    (r : ArtifactReport) {since : List ArtifactReport}
    (h : ∀ q ∈ since, q.artifact ≠ r.artifact) :
    (l.renewAll (before ++ r :: since)).markers[r.artifact]? =
      (l.renew r.artifact r.diagnostics).markers[r.artifact]? := by
  have hcategories : ((l.renewAll before).clear r.artifact).category =
      (l.clear r.artifact).category := by
    rw [category_clear, category_clear, category_renewAll]
  rw [renewAll_append]
  exact (getElem?_renewAll_of_not_reported _ h).trans
    (getElem?_foldl_push_congr hcategories (getElem?_clear_renewAll l before _) _ _)

/-- Recording reports never fails on a list, as long as each names its artifact. -/
theorem follow_reports (r : Recorded ProblemList) {reports : List ArtifactReport}
    (h : ∀ q ∈ reports, q.artifact ≠ "") :
    r.follow (reports.flatMap ArtifactReport.calls) = ⟨r.store.renewAll reports, r.warnings⟩ := by
  induction reports generalizing r with
  | nil => simp [renewAll]
  | cons q qs ih =>
      obtain ⟨hq, hqs⟩ := List.forall_mem_cons.mp h
      rw [List.flatMap_cons, Recorded.follow_append, ArtifactReport.calls,
        follow_replace r hq, ih _ hqs]
      rfl

end ProblemList

variable {T : Type}

/-- Every report of a build names its artifact. -/
theorem artifact_ne_empty_of_mem_buildTour {tools : Tools T} {s : BuildSettings} {fs : FileSystem}
    {kind : BuildKind} {t : T} {r : ArtifactReport}
    (h : r ∈ (tools.buildTour s fs kind t).reports) : r.artifact ≠ "" := by
  unfold Tools.buildTour at h
  split at h
  · obtain ⟨p, _, hsubject⟩ := Tools.mem_tour h
    obtain ⟨a, ha, hid⟩ := BuildSettings.subject?_eq_some hsubject
    have hartifact : r.artifact = a.id := hid
    rw [hartifact]
    exact Artifact.id_ne_empty ha
  · rw [List.mem_singleton.mp h]
    exact projectId_ne_empty

/-- A build on a problem list: the problems of the project are dropped, the reports are recorded,
and no call fails. -/
theorem build_recorded_list (s : BuildSettings) (tools : Tools T) (fs : FileSystem)
    (kind : BuildKind) (l : ProblemList) (t : T) :
    (build s tools fs kind l t).recorded =
      ⟨(l.clear projectId).renewAll (tools.buildTour s fs kind t).reports,
        if (s.candidates? fs kind).isSome then [] else [.buildFailed s.root]⟩ := by
  have hfirst : (Recorded.mk l []).follow [.clear projectId] = ⟨l.clear projectId, []⟩ :=
    ProblemList.follow_replace _ projectId_ne_empty []
  have hids : ∀ r ∈ (tools.buildTour s fs kind t).reports, r.artifact ≠ "" :=
    fun _ hr => artifact_ne_empty_of_mem_buildTour hr
  simp only [build_recorded, hfirst]
  rw [ProblemList.follow_reports _ hids]
  split
  · rfl
  · rfl

/-- The list after a build: the problems of the project are dropped, the reports are recorded. -/
theorem build_list (s : BuildSettings) (tools : Tools T) (fs : FileSystem) (kind : BuildKind)
    (l : ProblemList) (t : T) :
    (build s tools fs kind l t).recorded.store =
      (l.clear projectId).renewAll (build s tools fs kind l t).result.artifacts := by
  rw [build_artifacts, build_recorded_list]

section Artifacts

variable {s : BuildSettings} {tools : Tools T} {fs : FileSystem} {kind : BuildKind}
  {l : ProblemList} {t : T}

theorem build_markers_of_not_reported {id : String} (hid : id ≠ projectId)
    (h : ∀ r ∈ (build s tools fs kind l t).result.artifacts, r.artifact ≠ id) :
    (build s tools fs kind l t).recorded.store.markers[id]? = l.markers[id]? := by
  rw [build_list, ProblemList.getElem?_renewAll_of_not_reported _ h, ProblemList.getElem?_clear,
    if_neg (Ne.symm hid)]

theorem build_problems_of_last {before since : List ArtifactReport} {r : ArtifactReport}
    (h : (build s tools fs kind l t).result.artifacts = before ++ r :: since)
    (hsince : ∀ q ∈ since, q.artifact ≠ r.artifact) :
    (build s tools fs kind l t).recorded.store.problems r.artifact = r.diagnostics := by
  rw [build_list, h, ProblemList.problems_renewAll_of_last _ before r hsince]

/-- Where all reports of an artifact say the same, it has these problems. -/
theorem build_problems_of_reported {id : String} {ds : List Diagnostic}
    (h : ∃ r ∈ (build s tools fs kind l t).result.artifacts, r.artifact = id)
    (hall : ∀ r ∈ (build s tools fs kind l t).result.artifacts, r.artifact = id →
      r.diagnostics = ds) :
    (build s tools fs kind l t).recorded.store.problems id = ds := by
  obtain ⟨before, r, since, hsplit, rfl, hsince⟩ := ProblemList.exists_last_report h
  rw [build_problems_of_last hsplit hsince]
  exact hall r (by simp [hsplit]) rfl

theorem build_category :
    (build s tools fs kind l t).recorded.store.category = l.category := by
  rw [build_list, ProblemList.category_renewAll, ProblemList.category_clear]

theorem build_problems_project
    (h : ∀ r ∈ (build s tools fs kind l t).result.artifacts, r.artifact ≠ projectId) :
    (build s tools fs kind l t).recorded.store.problems projectId = [] := by
  rw [build_list, ProblemList.problems_renewAll_of_not_reported _ h, ProblemList.problems_clear,
    if_pos rfl]

theorem build_problems_of_not_reported {id : String} (hid : id ≠ projectId)
    (h : ∀ r ∈ (build s tools fs kind l t).result.artifacts, r.artifact ≠ id) :
    (build s tools fs kind l t).recorded.store.problems id = l.problems id := by
  rw [ProblemList.problems, ProblemList.problems, ProblemList.markersOf, ProblemList.markersOf,
    build_markers_of_not_reported hid h, build_category]

/-- Where no two reports are about the same artifact, each settles the problems of its own. -/
theorem build_problems_of_nodup {r : ArtifactReport}
    (hnodup : ((build s tools fs kind l t).result.artifacts.map (·.artifact)).Nodup)
    (h : r ∈ (build s tools fs kind l t).result.artifacts) :
    (build s tools fs kind l t).recorded.store.problems r.artifact = r.diagnostics := by
  refine build_problems_of_reported ⟨r, h, rfl⟩ fun q hq heq => ?_
  rw [List.inj_on_of_nodup_map hnodup hq h heq]

end Artifacts

/-- After any build, cancelled or not: the problems of a reported artifact are the diagnostics of
its last report; those of the project are gone unless it is reported; the markers of what is
neither are as they were, whoever recorded them; and so are those of other tools everywhere. Every
report names its artifact, so the list has refused nothing. -/
theorem build_leaves_markers (s : BuildSettings) (tools : Tools T) (fs : FileSystem)
    (kind : BuildKind) (l : ProblemList) (t : T) :
    let pass := build s tools fs kind l t
    let reports := pass.result.artifacts
    let after := pass.recorded.store
    (∀ id, (∃ r ∈ reports, r.artifact = id) →
        ∃ before r since, reports = before ++ r :: since ∧ r.artifact = id ∧
          (∀ q ∈ since, q.artifact ≠ id) ∧ after.problems id = r.diagnostics) ∧
      ((∀ r ∈ reports, r.artifact ≠ projectId) → after.problems projectId = []) ∧
      (∀ id, id ≠ projectId → (∀ r ∈ reports, r.artifact ≠ id) →
        after.markers[id]? = l.markers[id]?) ∧
      (∀ id, (after.markersOf id).filter (·.category ≠ l.category) =
        (l.markersOf id).filter (·.category ≠ l.category)) ∧
      after.category = l.category ∧
      (∀ r ∈ reports, r.artifact ≠ "") ∧
      pass.recorded.warnings.filter Warning.ofStore = [] := by
  intro pass reports after
  have hreports : reports = (tools.buildTour s fs kind t).reports := build_artifacts ..
  have hafter : after = (l.clear projectId).renewAll reports := by
    simp only [after, pass, build_recorded_list, hreports]
  refine ⟨?_, ?_, ?_, ?_, ?_, ?_, ?_⟩
  · intro id hid
    obtain ⟨before, r, since, hsplit, rfl, hsince⟩ := ProblemList.exists_last_report hid
    refine ⟨before, r, since, hsplit, rfl, hsince, ?_⟩
    rw [hafter, hsplit, ProblemList.problems_renewAll_of_last _ before r hsince]
  · intro hproject
    rw [hafter, ProblemList.problems_renewAll_of_not_reported _ hproject,
      ProblemList.problems_clear, if_pos rfl]
  · intro id hne hid
    rw [hafter, ProblemList.getElem?_renewAll_of_not_reported _ hid, ProblemList.getElem?_clear,
      if_neg (Ne.symm hne)]
  · intro id
    have hothers : after.othersOf id = l.othersOf id := by
      rw [hafter, ProblemList.othersOf_renewAll, ProblemList.othersOf_clear]
    rw [ProblemList.othersOf, hafter, ProblemList.category_renewAll] at hothers
    rw [hafter]
    exact hothers
  · rw [hafter, ProblemList.category_renewAll, ProblemList.category_clear]
  · intro r hr
    rw [hreports] at hr
    exact artifact_ne_empty_of_mem_buildTour hr
  · simp only [pass, build_recorded_list]
    split
    · rfl
    · rfl

end RuleBuild
