import RuleBuild.Proofs.BuildMarkers

/-!
# Builds report errors

Whatever a compiler answers, its diagnostics are errors, so the number of errors of a build tells
whether anything has been reported at all, and a list of errors stays one.
-/
namespace RuleBuild

theorem severity_of_mem_singleton {message : String} {line : Line} {d : Diagnostic}
    (h : d ∈ [Diagnostic.error message line]) : d.severity = .error := by
  rw [List.mem_singleton.mp h]
  rfl

theorem BuilderError.severity_of_mem {e : BuilderError} {d : Diagnostic} (h : d ∈ e.diagnostics) :
    d.severity = .error := by
  have hembedded (line : Line) (ps : List Problem) (hd : d ∈ Problem.diagnosticsAt line ps) :
      d.severity = .error := by
    obtain ⟨p, _, rfl⟩ := List.mem_map.mp hd
    rfl
  cases e with
  | global name message =>
      cases message with
      | none => exact severity_of_mem_singleton h
      | some m => exact severity_of_mem_singleton h
  | rule name message line problems =>
      cases problems with
      | none => exact severity_of_mem_singleton h
      | some ps => exact hembedded line ps h
  | parser message row => exact severity_of_mem_singleton h
  | function name message problems =>
      cases problems with
      | none => exact severity_of_mem_singleton h
      | some ps => exact hembedded none ps h
  | fieldTemplate message line => exact severity_of_mem_singleton h
  | factTemplate message line => exact severity_of_mem_singleton h
  | unknown tag detail => exact severity_of_mem_singleton h

theorem Outcome.severity_of_mem {o : Outcome} {d : Diagnostic} (h : d ∈ o.diagnostics) :
    d.severity = .error := by
  cases o with
  | parseFailure message line => exact severity_of_mem_singleton h
  | builderErrors errors =>
      obtain ⟨e, _, hd⟩ := List.mem_flatMap.mp h
      exact BuilderError.severity_of_mem hd
  | unexpectedFailure kind message => exact severity_of_mem_singleton h

section Reports

variable {T : Type} {tools : Tools T} {s : BuildSettings} {fs : FileSystem} {t : T}

theorem exists_outcome_of_mem_tour {ps : List Path} {r : ArtifactReport}
    (h : r ∈ (tools.tour s fs t ps).reports) : ∃ o : Outcome, r.diagnostics = o.diagnostics := by
  induction ps generalizing t with
  | nil => cases h
  | cons p ps ih =>
      simp only [Tools.tour] at h
      split at h
      · cases h
      · rcases List.mem_append.mp h with h | h
        · rw [Tools.visit_eq] at h
          split at h
          · cases Option.mem_toList.mp h
            exact ⟨_, rfl⟩
          · obtain ⟨x, _, hx⟩ := Option.map_eq_some_iff.mp (Option.mem_toList.mp h)
            rw [← hx]
            exact ⟨.clean, rfl⟩
        · exact ih h

/-- All that a build reports are errors. -/
theorem build_severity {S : Type} [ProblemStore S] {kind : BuildKind} {store : S}
    {r : ArtifactReport} (h : r ∈ (build s tools fs kind store t).result.artifacts)
    {d : Diagnostic} (hd : d ∈ r.diagnostics) : d.severity = .error := by
  rw [build_artifacts, Tools.buildTour] at h
  obtain ⟨o, ho⟩ : ∃ o : Outcome, r.diagnostics = o.diagnostics := by
    split at h
    · exact exists_outcome_of_mem_tour h
    · rw [List.mem_singleton.mp h]
      exact ⟨buildFailure s.root, rfl⟩
  rw [ho] at hd
  exact Outcome.severity_of_mem hd

theorem build_errors_pos_iff {S : Type} [ProblemStore S] {kind : BuildKind} {store : S} :
    0 < (build s tools fs kind store t).result.summary.errors ↔
      ∃ r ∈ (build s tools fs kind store t).result.artifacts, r.diagnostics ≠ [] := by
  rw [(build_isCounted s tools fs kind store t).errors, countErrors, List.length_pos_iff]
  constructor
  · intro h
    obtain ⟨d, hd⟩ := List.exists_mem_of_ne_nil _ h
    obtain ⟨r, hr, hdr⟩ := List.mem_flatMap.mp (List.mem_filter.mp hd).1
    exact ⟨r, hr, List.ne_nil_of_mem hdr⟩
  · rintro ⟨r, hr, hne⟩
    obtain ⟨d, hd⟩ := List.exists_mem_of_ne_nil _ hne
    refine List.ne_nil_of_mem (a := d) (List.mem_filter.mpr ⟨?_, ?_⟩)
    · exact List.mem_flatMap.mpr ⟨r, hr, hd⟩
    · simp [build_severity hr hd]

/-- A list that holds nothing but errors holds nothing else after a build. -/
theorem build_problems_severity {kind : BuildKind} {l : ProblemList}
    (h : ∀ id, ∀ d ∈ l.problems id, d.severity = .error) (id : String) :
    ∀ d ∈ (build s tools fs kind l t).recorded.store.problems id, d.severity = .error := by
  intro d hd
  by_cases hreported : ∃ r ∈ (build s tools fs kind l t).result.artifacts, r.artifact = id
  · obtain ⟨before, r, since, hsplit, rfl, hsince⟩ := ProblemList.exists_last_report hreported
    rw [build_problems_of_last hsplit hsince] at hd
    have hr : r ∈ (build s tools fs kind l t).result.artifacts := by simp [hsplit]
    exact build_severity hr hd
  · have hnone : ∀ r ∈ (build s tools fs kind l t).result.artifacts, r.artifact ≠ id :=
      fun r hr hid => hreported ⟨r, hr, hid⟩
    by_cases hproject : id = projectId
    · subst hproject
      rw [build_problems_project hnone] at hd
      cases hd
    · rw [build_problems_of_not_reported hproject hnone] at hd
      exact h id d hd

end Reports

end RuleBuild
