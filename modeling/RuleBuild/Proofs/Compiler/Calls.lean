import RuleBuild.Proofs.Isolation

/-!
# The calls of a build to its tools

Tools that note every call made to them show what a build asks of them, and when. It compiles what
it has rule text of, each artifact once and in the order of the reports, and nothing else. Noting
changes nothing: the build is otherwise that of the tools themselves.
-/
namespace RuleBuild

/-- A call of a build to its tools, with their answer. -/
inductive ToolCall
  | convert (content : Bytes) (a : Artifact) (answer : Attempt String)
  | compile (text : String) (a : Artifact) (answer : Attempt Outcome)

/-- What the compiler is given in a call: rule text, and the artifact it is the text of. -/
def ToolCall.compiled? : ToolCall → Option (String × Artifact)
  | .convert .. => none
  | .compile text a _ => some (text, a)

variable {S T : Type}

/-- The tools with a note of every call, the latest last. -/
def Tools.noted (tools : Tools T) : Tools (T × List ToolCall) where
  compile text a t :=
    let (answer, after) := tools.compile text a t.1
    (answer, after, t.2 ++ [.compile text a answer])
  convert := tools.convert.map fun convert content a t =>
    let (answer, after) := convert content a t.1
    (answer, after, t.2 ++ [.convert content a answer])
  cancelled t := tools.cancelled t.1
  meanwhile t := (tools.meanwhile t.1, t.2)

/-- Whether an artifact is handled with the given calls, to the given diagnostics. With rule text at
hand, its own or that of a converter, the compiler is called once and its answer counts. Without any
the compiler is not called, and there is one diagnostic. -/
inductive Tools.Handles (tools : Tools T) (fs : FileSystem) (a : Artifact) :
    Option String → List ToolCall → List Diagnostic → Prop
  | ruleText {content : Bytes} {text : String} (answer : Attempt Outcome) :
      a.kind = .ruleText → fs.read a.path = .ok content → Utf8.decode content = .ok text →
      Handles tools fs a (some text) [.compile text a answer] answer.outcome.diagnostics
  | spreadsheet {content : Bytes} (text : String) (answer : Attempt Outcome) :
      a.kind = .spreadsheet → tools.convert.isSome → fs.read a.path = .ok content →
      Handles tools fs a (some text) [.convert content a (.done text), .compile text a answer]
        answer.outcome.diagnostics
  | unreadable {e : FileError} (message : String) :
      fs.read a.path = .error e → Handles tools fs a none [] [.error message none]
  | notText {content : Bytes} {e : Utf8.DecodeError} (message : String) :
      a.kind = .ruleText → fs.read a.path = .ok content → Utf8.decode content = .error e →
      Handles tools fs a none [] [.error message none]
  | noConverter (message : String) :
      a.kind = .spreadsheet → tools.convert = none →
      Handles tools fs a none [] [.error message none]
  | notConverted {content : Bytes} {answer : Attempt String} (message : String) :
      a.kind = .spreadsheet → tools.convert.isSome → fs.read a.path = .ok content →
      (∀ text, answer ≠ .done text) →
      Handles tools fs a none [.convert content a answer] [.error message none]

/-- What a build does about an artifact: the rule text it comes by, if any, and its calls. -/
structure Handling where
  artifact : Artifact
  text : Option String
  calls : List ToolCall

/-- What the compiler is to be given. -/
def Handling.compiled? (h : Handling) : Option (String × Artifact) :=
  h.text.map (·, h.artifact)

/-- Whether a report is what a build says of an artifact that it handled so. The artifact is neither
hidden nor excluded, and there is a file of its kind. -/
structure Handling.Explains (h : Handling) (s : BuildSettings) (tools : Tools T) (fs : FileSystem)
    (r : ArtifactReport) : Prop where
  artifact : Artifact.ofPath? s.root h.artifact.path = some h.artifact
  shown : s.isHidden h.artifact.path = false
  included : s.isExcluded h.artifact.path = false
  present : fs.hasPath h.artifact.path = true
  subject : r.subject = (h.artifact.id, some h.artifact.kind, false)
  handled : tools.Handles fs h.artifact h.text h.calls r.diagnostics

/-! ## One artifact -/

namespace Tools

theorem Handles.filterMap_compiled? {tools : Tools T} {fs : FileSystem} {a : Artifact}
    {text : Option String} {calls : List ToolCall} {ds : List Diagnostic}
    (h : tools.Handles fs a text calls ds) :
    calls.filterMap ToolCall.compiled? = (text.map (·, a)).toList := by
  cases h <;> rfl

theorem noted_attempt (tools : Tools T) (fs : FileSystem) (a : Artifact) (t : T)
    (log : List ToolCall) :
    ∃ text calls,
      tools.noted.attempt fs a (t, log) =
        ((tools.attempt fs a t).1, (tools.attempt fs a t).2, log ++ calls) ∧
      tools.Handles fs a text calls (tools.attempt fs a t).1.outcome.diagnostics := by
  cases hkind : a.kind with
  | ruleText =>
      simp only [attempt, source, hkind]
      cases hread : fs.read a.path with
      | error e => exact ⟨none, [], by simp, .unreadable _ hread⟩
      | ok content =>
          dsimp only
          cases htext : Utf8.decode content with
          | error e => exact ⟨none, [], by simp, .notText _ hkind hread htext⟩
          | ok text => exact ⟨some text, _, rfl, .ruleText _ hkind hread htext⟩
  | spreadsheet =>
      simp only [attempt, source, hkind, noted]
      cases hconvert : tools.convert with
      | none => exact ⟨none, [], by simp, .noConverter _ hkind hconvert⟩
      | some convert =>
          have hsome : tools.convert.isSome = true := by rw [hconvert]; rfl
          dsimp only [Option.map_some]
          cases hread : fs.read a.path with
          | error e => exact ⟨none, [], by simp, .unreadable _ hread⟩
          | ok content =>
              dsimp only
              rcases convert content a t with ⟨text | e | word, after⟩
              · exact ⟨some text, _, by simp, .spreadsheet text _ hkind hsome hread⟩
              · exact ⟨none, _, rfl, .notConverted _ hkind hsome hread nofun⟩
              · exact ⟨none, _, rfl, .notConverted _ hkind hsome hread nofun⟩

end Tools

theorem Handling.filterMap_compiled? {s : BuildSettings} {tools : Tools T} {fs : FileSystem}
    {rs : List ArtifactReport} {hs : List Handling}
    (h : List.Forall₂ (fun r h => h.Explains s tools fs r) rs hs) :
    (hs.flatMap calls).filterMap ToolCall.compiled? = hs.filterMap compiled? := by
  induction h with
  | nil => rfl
  | @cons r h rs hs hr _ ih =>
      rw [List.flatMap_cons, List.filterMap_append, hr.handled.filterMap_compiled?, ih,
        List.filterMap_cons, compiled?]
      cases h.text with
      | none => rfl
      | some text => rfl

/-! ## A sequence of paths -/

namespace Tools

/-- Noting leaves a tour as it is, and notes the calls of each report with a kind, in the order of
the reports. -/
theorem noted_tour (tools : Tools T) (s : BuildSettings) (fs : FileSystem) (t : T)
    (log : List ToolCall) {ps : List Path} (hps : ∀ p ∈ ps, s.isHidden p = false) :
    ∃ handlings : List Handling,
      tools.noted.tour s fs (t, log) ps =
        ⟨(tools.tour s fs t ps).reports,
          ((tools.tour s fs t ps).tools, log ++ handlings.flatMap Handling.calls),
          (tools.tour s fs t ps).cancelled⟩ ∧
      List.Forall₂ (fun r h => h.Explains s tools fs r)
        ((tools.tour s fs t ps).reports.filter (·.kind.isSome)) handlings := by
  induction ps generalizing t log with
  | nil => exact ⟨[], by simp [tour], .nil⟩
  | cons p ps ih =>
      have hrest : ∀ q ∈ ps, s.isHidden q = false := fun q hq => hps q (List.mem_cons_of_mem p hq)
      cases hgoing : tools.cancelled (tools.meanwhile t) with
      | true =>
          have hnoted : tools.noted.cancelled (tools.noted.meanwhile (t, log)) = true := hgoing
          rw [tour, tour, hgoing, hnoted]
          exact ⟨[], by simp [noted], .nil⟩
      | false =>
          have hnoted : tools.noted.cancelled (tools.noted.meanwhile (t, log)) = false := hgoing
          rw [tour_cons hgoing, tour_cons hnoted, visit_eq, visit_eq]
          cases hcompiled : s.compiled? fs p with
          | none =>
              obtain ⟨handlings, hlog, hexplained⟩ := ih (tools.meanwhile t) log hrest
              refine ⟨handlings, ?_, ?_⟩
              · show Tour.mk _ _ _ = _
                simp only [noted] at hlog ⊢
                rw [hlog]
              · cases hgone : s.gone? fs p with
                | none => exact hexplained
                | some r =>
                    have hkind := BuildSettings.kind_of_gone? hgone
                    simpa [hkind] using hexplained
          | some a =>
              obtain ⟨text, calls, hattempt, hhandled⟩ :=
                tools.noted_attempt fs a (tools.meanwhile t) log
              obtain ⟨handlings, hlog, hexplained⟩ :=
                ih (tools.attempt fs a (tools.meanwhile t)).2 (log ++ calls) hrest
              obtain ⟨hin, hartifact, hpath⟩ := BuildSettings.compiled?_eq_some_iff.mp hcompiled
              obtain rfl : a.path = p := by
                obtain ⟨_, _, rfl⟩ := Option.map_eq_some_iff.mp hartifact
                rfl
              refine ⟨⟨a, text, calls⟩ :: handlings, ?_, .cons ?_ hexplained⟩
              · have hmeanwhile : tools.noted.meanwhile (t, log) = (tools.meanwhile t, log) := rfl
                simp only [hmeanwhile, hattempt, hlog]
                simp
              · exact ⟨hartifact, hps _ List.mem_cons_self, hin, hpath, rfl, hhandled⟩

end Tools

/-! ## Builds -/

theorem BuildSettings.isHidden_of_candidate {s : BuildSettings} {fs : FileSystem}
    {kind : BuildKind} {ps : List Path} (h : s.candidates? fs kind = some ps) :
    ∀ p ∈ ps, s.isHidden p = false := by
  have hscan : ∀ p ∈ s.scan fs, s.isHidden p = false := by
    intro p hp
    have hkept := (List.mem_filter.mp hp).2
    simp only [Bool.and_eq_true, Bool.not_eq_true'] at hkept
    exact hkept.2
  have hchanged (changed : List Path) : ∀ p ∈ s.changedPaths changed, s.isHidden p = false := by
    intro p hp
    simpa using (List.mem_filter.mp hp).2
  unfold candidates? at h
  split at h
  · split at h
    · split at h <;> cases h
      · exact hscan
      · exact hchanged _
    · cases h
      exact hscan
  · cases h

theorem Tools.noted_buildTour (tools : Tools T) (s : BuildSettings) (fs : FileSystem)
    (kind : BuildKind) (t : T) :
    ∃ handlings : List Handling,
      tools.noted.buildTour s fs kind (t, []) =
        ⟨(tools.buildTour s fs kind t).reports,
          ((tools.buildTour s fs kind t).tools, handlings.flatMap Handling.calls),
          (tools.buildTour s fs kind t).cancelled⟩ ∧
      List.Forall₂ (fun r h => h.Explains s tools fs r)
        ((tools.buildTour s fs kind t).reports.filter (·.kind.isSome)) handlings := by
  unfold buildTour
  cases hcandidates : s.candidates? fs kind with
  | none => exact ⟨[], rfl, .nil⟩
  | some ps => exact tools.noted_tour s fs t [] (BuildSettings.isHidden_of_candidate hcandidates)

/-- A report without a kind is about a file that is gone, or about the failure to begin. -/
theorem Tools.removed_of_kind {tools : Tools T} {s : BuildSettings} {fs : FileSystem}
    {kind : BuildKind} {t : T} {r : ArtifactReport}
    (hr : r ∈ (tools.buildTour s fs kind t).reports) (hkind : r.kind = none) :
    r.removed = true ∨ (tools.buildTour s fs kind t).reports = [failureReport s.root] := by
  unfold buildTour at hr ⊢
  cases hcandidates : s.candidates? fs kind with
  | none => exact .inr rfl
  | some ps =>
      rw [hcandidates] at hr
      obtain ⟨p, _, hsubject⟩ := mem_tour hr
      left
      unfold BuildSettings.subject? at hsubject
      split at hsubject
      · cases hsubject
      · obtain ⟨a, _, ha⟩ := Option.map_eq_some_iff.mp hsubject
        split at ha
        · have hsome := congrArg (·.2.1) ha
          rw [ArtifactReport.subject, hkind] at hsome
          cases hsome
        · exact (congrArg (·.2.2) ha).symm

/-- A build with noted calls is the build without, and its notes are the calls of its reports, one
report after the other: each report with a kind is explained by what was done about its artifact. So
the compiler is given, once each and in the order of the reports, what there is rule text of. A
report without a kind is of a file that is gone, or the only one of a build that could not begin. -/
theorem build_compiles_what_has_text [ProblemStore S] (s : BuildSettings) (tools : Tools T)
    (fs : FileSystem) (kind : BuildKind) (store : S) (t : T) :
    let pass := build s tools fs kind store t
    ∃ handlings : List Handling,
      build s tools.noted fs kind store (t, []) =
        ⟨pass.recorded, (pass.tools, handlings.flatMap Handling.calls), pass.result⟩ ∧
      (handlings.flatMap Handling.calls).filterMap ToolCall.compiled? =
        handlings.filterMap Handling.compiled? ∧
      List.Forall₂ (fun r h => h.Explains s tools fs r)
        (pass.result.artifacts.filter (·.kind.isSome)) handlings ∧
      ∀ r ∈ pass.result.artifacts, r.kind = none →
        r.removed = true ∨
          pass.result.artifacts = [r] ∧ ∃ message, r.diagnostics = [.error message none] := by
  intro pass
  obtain ⟨handlings, htour, hexplained⟩ := tools.noted_buildTour s fs kind t
  have hrecorded : (build s tools.noted fs kind store (t, [])).recorded = pass.recorded := by
    rw [build_recorded, build_recorded, htour]
  have htools : (build s tools.noted fs kind store (t, [])).tools =
      (pass.tools, handlings.flatMap Handling.calls) := by
    rw [build_tools, build_tools, htour]
  have hresult : (build s tools.noted fs kind store (t, [])).result = pass.result := by
    rw [build_result, build_result, htour]
    rfl
  have hartifacts : pass.result.artifacts = (tools.buildTour s fs kind t).reports :=
    build_artifacts ..
  refine ⟨handlings, ?_, ?_, ?_, fun r hr hkind => ?_⟩
  · rw [← hrecorded, ← htools, ← hresult]
  · exact Handling.filterMap_compiled? hexplained
  · rwa [hartifacts]
  · rw [hartifacts] at hr ⊢
    rcases Tools.removed_of_kind hr hkind with hgone | hfailure
    · exact .inl hgone
    · rw [hfailure] at hr ⊢
      obtain rfl := List.mem_singleton.mp hr
      exact .inr ⟨rfl, _, rfl⟩

/-- A rule text is compiled once, with its text; a changed file that is gone is reported without a
call. -/
theorem rule_compiled_once :
    let s := BuildSettings.ofDirectory "rules" none
    let fs := FileSystem.ofOneRule "rules" (by decide)
    let kind := BuildKind.incremental (some [⟨["gone.drl"]⟩, ⟨["x.drl"]⟩])
    let pass := build s acceptingTools fs kind (ProblemList.empty "drlbuild.problem") ()
    ∃ handlings : List Handling,
      handlings.filterMap Handling.compiled? =
        [("", ⟨"x.drl", ⟨["", "rules", "x.drl"]⟩, .ruleText⟩)] ∧
      List.Forall₂ (fun r h => h.Explains s acceptingTools fs r)
        (pass.result.artifacts.filter (·.kind.isSome)) handlings ∧
      ∃ r ∈ pass.result.artifacts, r.kind = none ∧ r.removed = true := by
  intro s fs kind pass
  obtain ⟨handlings, hnoted, hcompiled, hexplained, hgone⟩ :=
    build_compiles_what_has_text s acceptingTools fs kind (ProblemList.empty "drlbuild.problem") ()
  have hlog : (build s acceptingTools.noted fs kind (ProblemList.empty "drlbuild.problem")
      ((), [])).tools.2 = handlings.flatMap Handling.calls := congrArg (·.tools.2) hnoted
  refine ⟨handlings, ?_, hexplained, ⟨"gone.drl", none, [], true⟩, by decide, rfl, ?_⟩
  · rw [← hcompiled, ← hlog]
    rfl
  · exact (hgone ⟨"gone.drl", none, [], true⟩ (by decide) rfl).resolve_right fun h =>
      absurd (congrArg List.length h.1) (by decide)

end RuleBuild
