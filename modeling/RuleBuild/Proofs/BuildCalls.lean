import RuleBuild.Proofs.Tour

/-!
# The calls of a build

A build sends its store one sequence of calls, fixed by what it reports: the project is forgotten,
then each report is recorded. What the store answers shows in the warnings only.
-/
namespace RuleBuild

variable {S S' T : Type} [ProblemStore S] [ProblemStore S']

theorem build_store (s : BuildSettings) (tools : Tools T) (fs : FileSystem) (kind : BuildKind)
    (store : S) (t : T) :
    (build s tools fs kind store t).recorded.store =
      (StoreCall.performAll store (buildCalls (tools.buildTour s fs kind t).reports)).2 := by
  rw [buildCalls, ← List.singleton_append, StoreCall.performAll_append, build_recorded]
  cases s.candidates? fs kind with
  | some ps => rfl
  | none => rfl

/-- The warnings of a build, those about the traversal where they stand. -/
theorem build_warnings (s : BuildSettings) (tools : Tools T) (fs : FileSystem) (kind : BuildKind)
    (store : S) (t : T) :
    (build s tools fs kind store t).recorded.warnings =
      (StoreCall.performAll store [.clear projectId]).1.filterMap StoreCall.warning? ++
        (if (s.candidates? fs kind).isSome then [] else [.buildFailed s.root]) ++
        (StoreCall.performAll (StoreCall.performAll store [.clear projectId]).2
          ((tools.buildTour s fs kind t).reports.flatMap ArtifactReport.calls)).1.filterMap
            StoreCall.warning? := by
  rw [build_recorded]
  cases s.candidates? fs kind with
  | some ps => simp [Recorded.follow]
  | none => simp [Recorded.follow]

theorem filter_ofStore_warnings (answered : List AnsweredCall) :
    (answered.filterMap StoreCall.warning?).filter Warning.ofStore =
      answered.filterMap StoreCall.warning? := by
  apply List.filter_eq_self.mpr
  intro w hw
  obtain ⟨c, _, hc⟩ := List.mem_filterMap.mp hw
  exact StoreCall.ofStore_of_warning? hc

/-- The warnings about calls are those of the calls that failed, each once and in order. -/
theorem build_store_warnings (s : BuildSettings) (tools : Tools T) (fs : FileSystem)
    (kind : BuildKind) (store : S) (t : T) :
    (build s tools fs kind store t).recorded.warnings.filter Warning.ofStore =
      (StoreCall.performAll store
        (buildCalls (tools.buildTour s fs kind t).reports)).1.filterMap StoreCall.warning? := by
  have htraversal : (if (s.candidates? fs kind).isSome then [] else
      [Warning.buildFailed s.root]).filter Warning.ofStore = [] := by
    split <;> rfl
  rw [buildCalls, ← List.singleton_append, StoreCall.performAll_append, build_warnings,
    List.filter_append, List.filter_append, htraversal, List.append_nil, filter_ofStore_warnings,
    filter_ofStore_warnings, List.filterMap_append]

/-- Whatever a store answers, a build makes the same calls: it forgets the problems of the project,
then for each report those of its artifact, and records the diagnostics of the report one by one.
The log shows every call made, each once; a failed call gives one warning; and neither the result
nor what the tools remember depends on the store. -/
theorem build_calls_fixed_by_result (s : BuildSettings) (tools : Tools T) (fs : FileSystem)
    (kind : BuildKind) (store : S) (store' : S') (t : T) :
    let pass := build s tools fs kind store t
    let logged := build s tools fs kind (Logged.mk store []) t
    let log := logged.recorded.store.log
    log.map (·.1) =
        .clear projectId :: pass.result.artifacts.flatMap (fun r =>
          .clear r.artifact :: r.diagnostics.map (.add r.artifact)) ∧
      (log, pass.recorded.store) = StoreCall.performAll store (log.map (·.1)) ∧
      pass.recorded.warnings.filter Warning.ofStore = log.filterMap StoreCall.warning? ∧
      (logged.result = pass.result ∧ logged.tools = pass.tools ∧
        logged.recorded.store.store = pass.recorded.store ∧
        logged.recorded.warnings = pass.recorded.warnings) ∧
      (build s tools fs kind store' t).result = pass.result ∧
      (build s tools fs kind store' t).tools = pass.tools := by
  intro pass logged log
  have hcalls : buildCalls (tools.buildTour s fs kind t).reports =
      .clear projectId :: pass.result.artifacts.flatMap ArtifactReport.calls := by
    rw [build_artifacts]
    rfl
  have hlogged : logged.recorded.store =
      ⟨pass.recorded.store, (StoreCall.performAll store
        (buildCalls (tools.buildTour s fs kind t).reports)).1⟩ := by
    simp only [logged, pass, build_store, Logged.performAll_eq, List.nil_append]
  have hlog : log = (StoreCall.performAll store
      (buildCalls (tools.buildTour s fs kind t).reports)).1 := by
    simp only [log, hlogged]
  refine ⟨?_, ?_, ?_, ⟨?_, ?_, ?_, ?_⟩, ?_, ?_⟩
  · rw [hlog, StoreCall.map_fst_performAll, hcalls]
    rfl
  · rw [hlog, StoreCall.map_fst_performAll]
    simp only [pass, build_store]
  · rw [hlog]
    exact build_store_warnings s tools fs kind store t
  · simp only [logged, pass, build_result]
  · simp only [logged, pass, build_tools]
  · rw [hlogged]
  · simp only [logged, pass, build_warnings, Logged.performAll_eq]
  · simp only [pass, build_result]
  · simp only [pass, build_tools]

end RuleBuild
