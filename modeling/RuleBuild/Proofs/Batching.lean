import RuleBuild.Proofs.IncrementalBuild

/-!
# Changes in batches

Each visit of an incremental build overwrites what was known of its artifact, and what it writes is
settled by the path alone. So a sequence of builds leaves what its changes leave when they are
recorded one after the other (`Updates.getElem?_markers`), and how the changes are split into
builds, ordered and repeated makes no difference.
-/
namespace RuleBuild

variable {T α : Type} {s : BuildSettings} {tools : Tools T} {fs : FileSystem}

/-- Incremental builds one after the other, each of its own changes and none cancelled. What the
tools remember may be anything when a build begins. -/
inductive BuildSettings.Updates (s : BuildSettings) (tools : Tools T) (fs : FileSystem) :
    ProblemList → List (List Path) → ProblemList → Prop
  | done (l : ProblemList) : s.Updates tools fs l [] l
  | next {l last : ProblemList} {changed : List Path} {rest : List (List Path)} (t : T)
    (hrun :
      (build s tools fs (.incremental (some changed)) l t).result.summary.cancelled = false)
    (hrest : s.Updates tools fs
      (build s tools fs (.incremental (some changed)) l t).recorded.store rest last) :
    s.Updates tools fs l (changed :: rest) last

/-- The report of a changed path, if there is anything to say of it. -/
def Tools.changeReport? (tools : Tools T) (s : BuildSettings) (fs : FileSystem) (t : T) (q : Path) :
    Option ArtifactReport :=
  if fs.isDirectory s.root = true ∧ s.isHidden (s.root.join q) = false then
    (tools.visit s fs t (s.root.join q)).1
  else none

theorem Tools.artifact_of_visit {t : T} {p : Path} {r : ArtifactReport}
    (h : (tools.visit s fs t p).1 = some r) : r.artifact = artifactId s.root p := by
  obtain ⟨a, ha, hid⟩ := BuildSettings.subject?_eq_some (Tools.subject?_of_visit h)
  obtain ⟨kind, _, rfl⟩ := Option.map_eq_some_iff.mp ha
  exact hid

theorem Tools.changeReport?_eq_some {t : T} {q : Path} {r : ArtifactReport}
    (h : tools.changeReport? s fs t q = some r) :
    r.artifact = artifactId s.root (s.root.join q) := by
  unfold changeReport? at h
  split at h
  · exact artifact_of_visit h
  · cases h

theorem Tools.changeReport?_congr {t : T} {q q' : Path} (h : s.root.join q = s.root.join q') :
    tools.changeReport? s fs t q = tools.changeReport? s fs t q' := by
  rw [changeReport?, changeReport?, h]

theorem BuildSettings.filterMap_changedPaths (hdir : fs.isDirectory s.root = true) (t : T)
    (changed : List Path) :
    ((s.changedPaths changed).filterMap fun p => (tools.visit s fs t p).1) =
      changed.filterMap (tools.changeReport? s fs t) := by
  rw [changedPaths, List.filterMap_filter, List.filterMap_map]
  apply List.filterMap_congr
  intro q _
  simp [Tools.changeReport?, hdir]

/-- One incremental build leaves of every artifact what its changes leave one after the other. -/
theorem build_changes_markers {view : Path → α} (htools : tools.Functional view)
    (hall : s.buildAll = false) {l : ProblemList} {changed : List Path} {t : T}
    (hrun : (build s tools fs (.incremental (some changed)) l t).result.summary.cancelled = false)
    (t₀ : T) {id : String} (hid : id ≠ projectId) :
    (build s tools fs (.incremental (some changed)) l t).recorded.store.markers[id]? =
      (l.renewAll (changed.filterMap (tools.changeReport? s fs t₀))).markers[id]? := by
  cases hdir : fs.isDirectory s.root with
  | false =>
      have hnone : changed.filterMap (tools.changeReport? s fs t₀) = [] := by
        simp [Tools.changeReport?, hdir]
      rw [hnone, build_markers_of_not_reported hid]
      · rfl
      · rw [build_artifacts_of_not_directory hdir]
        intro r hr
        rw [List.mem_singleton.mp hr]
        exact Ne.symm hid
  | true =>
      have hentry : (l.clear projectId).markers[id]? = l.markers[id]? := by
        rw [ProblemList.getElem?_clear, if_neg (Ne.symm hid)]
      rw [build_list,
        htools.build_reports (BuildSettings.candidates?_changed hall hdir changed) hrun t₀,
        BuildSettings.filterMap_changedPaths hdir]
      exact ProblemList.getElem?_renewAll_of_entry (ProblemList.category_clear l _) hentry _

namespace BuildSettings.Updates

variable {l last : ProblemList} {changes : List (List Path)}

/-- A sequence of builds leaves of every artifact what all its changes leave one after the other. -/
theorem getElem?_markers {view : Path → α} (h : s.Updates tools fs l changes last)
    (htools : tools.Functional view) (hall : s.buildAll = false) (t₀ : T) {id : String}
    (hid : id ≠ projectId) :
    last.markers[id]? =
      (l.renewAll (changes.flatten.filterMap (tools.changeReport? s fs t₀))).markers[id]? := by
  induction h with
  | done l => rfl
  | next t hrun _ ih =>
      rw [ih, List.flatten_cons, List.filterMap_append, ProblemList.renewAll_append]
      apply ProblemList.getElem?_renewAll_of_entry
      · rw [build_category, ProblemList.category_renewAll]
      · exact build_changes_markers htools hall hrun t₀ hid

theorem eq_of_isEmpty (h : s.Updates tools fs l changes last) (hT : ¬ Nonempty T) :
    last = l := by
  cases h with
  | done => rfl
  | next t => exact absurd ⟨t⟩ hT

end BuildSettings.Updates

/-- Two sequences of incremental builds that are given the same changed paths, split into builds,
ordered and repeated in any way, leave the same markers of every artifact. The tools compute their
results, and paths with the same identity are one path seen from the root. -/
theorem updates_agree {view : Path → α} {l last last' : ProblemList}
    {changes changes' : List (List Path)} (hall : s.buildAll = false)
    (htools : tools.Functional view) (hsame : ∀ q, q ∈ changes.flatten ↔ q ∈ changes'.flatten)
    (hids : ∀ q ∈ changes.flatten, ∀ q' ∈ changes.flatten,
      artifactId s.root (s.root.join q) = artifactId s.root (s.root.join q') →
        s.root.join q = s.root.join q')
    (h : s.Updates tools fs l changes last) (h' : s.Updates tools fs l changes' last')
    {id : String} (hid : id ≠ projectId) : last.markers[id]? = last'.markers[id]? := by
  by_cases hT : Nonempty T
  case neg => rw [h.eq_of_isEmpty hT, h'.eq_of_isEmpty hT]
  obtain ⟨t₀⟩ := hT
  rw [h.getElem?_markers htools hall t₀ hid, h'.getElem?_markers htools hall t₀ hid]
  have hreports (r : ArtifactReport) :
      r ∈ changes.flatten.filterMap (tools.changeReport? s fs t₀) ↔
        r ∈ changes'.flatten.filterMap (tools.changeReport? s fs t₀) := by
    simp only [List.mem_filterMap, hsame]
  -- Reports of one artifact come from one path, so they are the same.
  have hunique {r r' : ArtifactReport}
      (hr : r ∈ changes.flatten.filterMap (tools.changeReport? s fs t₀))
      (hr' : r' ∈ changes.flatten.filterMap (tools.changeReport? s fs t₀))
      (heq : r.artifact = r'.artifact) : r = r' := by
    obtain ⟨q, hq, hreport⟩ := List.mem_filterMap.mp hr
    obtain ⟨q', hq', hreport'⟩ := List.mem_filterMap.mp hr'
    have hpath : s.root.join q = s.root.join q' := by
      apply hids q hq q' hq'
      rw [← Tools.changeReport?_eq_some hreport, ← Tools.changeReport?_eq_some hreport', heq]
    rw [Tools.changeReport?_congr hpath, hreport'] at hreport
    exact (Option.some.inj hreport).symm
  generalize changes.flatten.filterMap (tools.changeReport? s fs t₀) = reports at hreports hunique
  generalize changes'.flatten.filterMap (tools.changeReport? s fs t₀) = reports' at hreports
  by_cases hreported : ∃ r ∈ reports, r.artifact = id
  · have hreported' : ∃ r ∈ reports', r.artifact = id := by
      obtain ⟨r, hr, hrid⟩ := hreported
      exact ⟨r, (hreports r).mp hr, hrid⟩
    obtain ⟨before, r, since, rfl, rfl, hsince⟩ := ProblemList.exists_last_report hreported
    obtain ⟨before', r', since', rfl, hrid, hsince'⟩ := ProblemList.exists_last_report hreported'
    obtain rfl : r' = r := hunique ((hreports r').mpr (by simp)) (by simp) hrid
    rw [ProblemList.getElem?_renewAll_of_last l before r' hsince,
      ProblemList.getElem?_renewAll_of_last l before' r' hsince']
  · have hnone : ∀ r ∈ reports, r.artifact ≠ id := fun r hr hrid => hreported ⟨r, hr, hrid⟩
    have hnone' : ∀ r ∈ reports', r.artifact ≠ id := fun r hr => hnone r ((hreports r).mpr hr)
    rw [ProblemList.getElem?_renewAll_of_not_reported l hnone,
      ProblemList.getElem?_renewAll_of_not_reported l hnone']

/-- Two changes in two orders, one of them twice: a rule text, and a file that is gone. -/
theorem changes_in_two_orders_agree :
    let s := BuildSettings.ofDirectory "rules" none
    let fs := FileSystem.ofOneRule "rules" (by decide)
    let l := (ProblemList.empty "drlbuild.problem").push "gone.drl" (.error "stale" none)
    let changes : List (List Path) := [[⟨["x.drl"]⟩, ⟨["gone.drl"]⟩], [⟨["x.drl"]⟩]]
    let changes' : List (List Path) := [[⟨["gone.drl"]⟩], [⟨["x.drl"]⟩]]
    s.buildAll = false ∧ acceptingTools.Functional (id : Path → Path) ∧
      (∀ q, q ∈ changes.flatten ↔ q ∈ changes'.flatten) ∧
      (∀ q ∈ changes.flatten, ∀ q' ∈ changes.flatten,
        artifactId s.root (s.root.join q) = artifactId s.root (s.root.join q') →
          s.root.join q = s.root.join q') ∧
      "gone.drl" ≠ projectId ∧
      ∃ last last', s.Updates acceptingTools fs l changes last ∧
        s.Updates acceptingTools fs l changes' last' ∧
        l.markers["gone.drl"]? ≠ none ∧ last.markers["gone.drl"]? = none ∧
        last.markers["gone.drl"]? = last'.markers["gone.drl"]? := by
  intro s fs l changes changes'
  have hsame : ∀ q, q ∈ changes.flatten ↔ q ∈ changes'.flatten := by
    intro q
    simp only [changes, changes', List.flatten_cons, List.flatten_nil, List.mem_append,
      List.mem_cons, List.not_mem_nil, or_false]
    tauto
  have hids : ∀ q ∈ changes.flatten, ∀ q' ∈ changes.flatten,
      artifactId s.root (s.root.join q) = artifactId s.root (s.root.join q') →
        s.root.join q = s.root.join q' := by decide
  have hupdates : ∃ last, s.Updates acceptingTools fs l changes last ∧
      last.markers["gone.drl"]? = none :=
    ⟨_, .next () (build_not_cancelled (fun _ => rfl) ..)
      (.next () (build_not_cancelled (fun _ => rfl) ..) (.done _)), by decide⟩
  have hupdates' : ∃ last, s.Updates acceptingTools fs l changes' last :=
    ⟨_, .next () (build_not_cancelled (fun _ => rfl) ..)
      (.next () (build_not_cancelled (fun _ => rfl) ..) (.done _))⟩
  obtain ⟨last, hlast, hgone⟩ := hupdates
  obtain ⟨last', hlast'⟩ := hupdates'
  have htools : acceptingTools.Functional (id : Path → Path) := functional_acceptingTools
  exact ⟨rfl, htools, hsame, hids, by decide, last, last', hlast, hlast', by decide, hgone,
    updates_agree rfl htools hsame hids hlast hlast' (by decide)⟩

end RuleBuild
