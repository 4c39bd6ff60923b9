import RuleBuild.Proofs.BuildMarkers
import RuleBuild.Proofs.Configuration.Marks
import RuleBuild.Proofs.ProblemList.Sharing
import RuleBuild.Proofs.Severity
import RuleBuild.Session

/-!
# What a call leaves behind

A call that is not obeyed changes no file. A build that is obeyed has saved the problems of its
reports, and says by its status whether there are any; cleaning leaves the markers of other tools.
-/
namespace RuleBuild

/-! ## Calls that are not obeyed -/

/-- The settings that a call works with which is about a problem list. -/
def Request.settings? (fs : FileSystem) : Request → Option Settings
  | .build root output _ all =>
    (Settings.resolve fs root output (if all then some true else none)).toOption
  | .problems root output => (Settings.resolve fs root output none).toOption
  | .clean root => (Settings.resolve fs root none none).toOption
  | _ => none

namespace Session

variable {s : Session} {fs : FileSystem}

theorem withSettings_cases (s : Session) (fs : FileSystem) (root output : Option String)
    (buildAll : Option Bool) (next : Settings → Ending) :
    (∃ e, Settings.resolve fs root output buildAll = .error e ∧
        s.withSettings fs root output buildAll next = s.failed fs e.message) ∨
      ∃ settings errors, Settings.resolve fs root output buildAll = .ok settings ∧
        s.withSettings fs root output buildAll next = { next settings with errors := errors } := by
  unfold withSettings
  cases Settings.resolve fs root output buildAll with
  | error e => exact .inl ⟨e, rfl, rfl⟩
  | ok settings =>
      refine .inr ⟨settings, ?_⟩
      by_cases hconfigured : settings.configured = true
      · exact ⟨(next settings).errors, rfl, if_pos hconfigured⟩
      · exact ⟨s.note ++ (next settings).errors, rfl, if_neg hconfigured⟩

theorem withProblems_cases (s : Session) (fs : FileSystem) (settings : Settings)
    (next : ProblemList → Ending) :
    (∃ message, s.withProblems fs settings next = s.failed fs message) ∨
      ∃ l, ProblemList.load fs settings.store settings.category = .ok l ∧
        s.withProblems fs settings next = next l := by
  unfold withProblems
  cases ProblemList.load fs settings.store settings.category with
  | error e => exact .inl ⟨_, rfl⟩
  | ok l => exact .inr ⟨l, rfl, rfl⟩

theorem saving_cases (s : Session) (fs : FileSystem) (settings : Settings) (l : ProblemList)
    (next : FileSystem → Ending) :
    (∃ fs' message, fs.Widens fs' ∧ s.saving fs settings l next = s.failed fs' message) ∨
      ∃ fs', l.save fs settings.store = (.ok (), fs') ∧ s.saving fs settings l next = next fs' := by
  unfold saving
  cases hsave : l.save fs settings.store with
  | mk result fs' =>
      cases result with
      | error e => exact .inl ⟨fs', _, (ProblemList.paves_of_save hsave).widens, rfl⟩
      | ok _ => exact .inr ⟨fs', rfl, rfl⟩

/-- The pass that a call for a build makes. -/
def buildPass (s : Session) (fs : FileSystem) (changed : List String) (settings : Settings)
    (compiler : Command) (l : ProblemList) : Pass ProblemList Unit :=
  build ⟨settings.root, settings.outputDir, settings.buildAll⟩
    (externalTools s.launch ((runtimesOf settings).forBuild? fs) compiler settings.converter) fs
    (kindOf changed) l ()

/-- What a build leaves that has been done with these settings on this list. -/
structure Built (s : Session) (fs : FileSystem) (changed : List String) (settings : Settings)
    (compiler : Command) (l : ProblemList) (ending : Ending) : Prop where
  configured : settings.compiler = some compiler
  loaded : ProblemList.load fs settings.store settings.category = .ok l
  saved : (s.buildPass fs changed settings compiler l).recorded.store.save fs settings.store =
    (.ok (), ending.fs)
  output : ending.output =
    (s.buildPass fs changed settings compiler l).result.render (s.styleFor settings)
  status : ending.status =
    if 0 < (s.buildPass fs changed settings compiler l).result.summary.errors then errorsFound
    else 0

theorem Built.status_ne {changed : List String} {settings : Settings} {compiler : Command}
    {l : ProblemList} {ending : Ending} (h : s.Built fs changed settings compiler l ending) :
    ending.status ≠ notObeyed := by
  rw [h.status]
  split
  · decide
  · decide

/-- What cleaning leaves that has been done with these settings on this list. -/
structure Cleaned (fs : FileSystem) (settings : Settings) (l : ProblemList) (ending : Ending) :
    Prop where
  loaded : ProblemList.load fs settings.store settings.category = .ok l
  saved : l.clearAll.save fs settings.store = (.ok (), ending.fs)
  status : ending.status = 0

/-- Whether a call has been refused: it has not been obeyed, and nothing has changed except that
directories may have been added. -/
structure Refused (fs : FileSystem) (ending : Ending) : Prop where
  status : ending.status = notObeyed
  widens : fs.Widens ending.fs

theorem refused_failed {fs' : FileSystem} (h : fs.Widens fs') (s : Session) (message : String) :
    Refused fs (s.failed fs' message) :=
  ⟨rfl, h⟩

/-- What is said of a call is no part of what has become of the files. -/
theorem Refused.withErrors {ending : Ending} (h : Refused fs ending) (errors : String) :
    Refused fs { ending with errors := errors } :=
  ⟨h.status, h.widens⟩

theorem buildProject_eq (s : Session) (fs : FileSystem) (changed : List String)
    {settings : Settings} {compiler : Command} (h : settings.compiler = some compiler) :
    s.buildProject fs changed settings =
      s.withProblems fs settings fun l =>
        s.saving fs settings (s.buildPass fs changed settings compiler l).recorded.store fun fs' =>
          { shown fs' ((s.buildPass fs changed settings compiler l).result.render
              (s.styleFor settings)) with
            status := if 0 < (s.buildPass fs changed settings compiler l).result.summary.errors
              then errorsFound else 0 } := by
  unfold buildProject
  rw [h]
  rfl

theorem buildProject_cases (s : Session) (fs : FileSystem) (changed : List String)
    (settings : Settings) :
    Refused fs (s.buildProject fs changed settings) ∨
      ∃ compiler l,
        s.Built fs changed settings compiler l (s.buildProject fs changed settings) := by
  cases hcompiler : settings.compiler with
  | none =>
      unfold buildProject
      rw [hcompiler]
      exact .inl (refused_failed (.refl fs) s _)
  | some compiler =>
      rw [s.buildProject_eq fs changed hcompiler]
      rcases s.withProblems_cases fs settings _ with ⟨message, heq⟩ | ⟨l, hload, heq⟩
      · rw [heq]
        exact .inl (refused_failed (.refl fs) s message)
      · rw [heq]
        rcases s.saving_cases fs settings _ _ with ⟨fs', message, hwidens, heq⟩ | ⟨fs', hsave, heq⟩
        · rw [heq]
          exact .inl (refused_failed hwidens s message)
        · rw [heq]
          exact .inr ⟨compiler, l, hcompiler, hload, hsave, rfl, rfl⟩

/-! ## Requests -/

theorem obey_build_cases (s : Session) (fs : FileSystem) (root output : Option String)
    (changed : List String) (all : Bool) :
    Refused fs (s.obey fs (.build root output changed all)) ∨
      ∃ settings compiler l, (Request.build root output changed all).settings? fs = some settings ∧
        s.Built fs changed settings compiler l (s.obey fs (.build root output changed all)) := by
  rw [obey, Request.settings?]
  rcases s.withSettings_cases fs root output (if all then some true else none)
    (s.buildProject fs changed) with ⟨e, hresolve, heq⟩ | ⟨settings, errors, hresolve, heq⟩
  · rw [heq]
    exact .inl (refused_failed (.refl fs) s e.message)
  · rw [heq, hresolve]
    rcases s.buildProject_cases fs changed settings with hrefused | ⟨compiler, l, hbuilt⟩
    · exact .inl (hrefused.withErrors errors)
    · exact .inr ⟨settings, compiler, l, rfl, hbuilt.configured, hbuilt.loaded, hbuilt.saved,
        hbuilt.output, hbuilt.status⟩

theorem obey_clean_cases (s : Session) (fs : FileSystem) (root : Option String) :
    Refused fs (s.obey fs (.clean root)) ∨
      ∃ settings l, (Request.clean root).settings? fs = some settings ∧
        Cleaned fs settings l (s.obey fs (.clean root)) := by
  rw [obey, Request.settings?]
  rcases s.withSettings_cases fs root none none _ with
    ⟨e, hresolve, heq⟩ | ⟨settings, errors, hresolve, heq⟩
  · rw [heq]
    exact .inl (refused_failed (.refl fs) s e.message)
  · rw [heq, hresolve]
    dsimp only
    rcases s.withProblems_cases fs settings _ with ⟨message, heq⟩ | ⟨l, hload, heq⟩
    · rw [heq]
      exact .inl ((refused_failed (.refl fs) s message).withErrors errors)
    · rw [heq]
      rcases s.saving_cases fs settings l.clearAll (fun fs => shown fs "cleaned\n") with
        ⟨fs', message, hwidens, heq⟩ | ⟨fs', hsave, heq⟩
      · rw [heq]
        exact .inl ((refused_failed hwidens s message).withErrors errors)
      · rw [heq]
        exact .inr ⟨settings, l, rfl, hload, hsave, rfl⟩

theorem withSettings_fs {next : Settings → Ending} (h : ∀ settings, (next settings).fs = fs)
    (s : Session) (root output : Option String) (buildAll : Option Bool) :
    (s.withSettings fs root output buildAll next).fs = fs := by
  rcases s.withSettings_cases fs root output buildAll next with
    ⟨e, _, heq⟩ | ⟨settings, errors, _, heq⟩
  · rw [heq]
    rfl
  · rw [heq]
    exact h settings

theorem withRuntime_fs {next : Runtimes → Ending} (h : ∀ rs, (next rs).fs = fs) (s : Session)
    (name : String) (found : Option Runtimes) : (s.withRuntime fs name found next).fs = fs := by
  cases found with
  | none => rfl
  | some rs => exact h rs

/-- Only builds and cleaning change files. -/
theorem fs_obey {r : Request}
    (hbuild : ∀ root output changed all, r ≠ .build root output changed all)
    (hclean : ∀ root, r ≠ .clean root) (s : Session) (fs : FileSystem) :
    (s.obey fs r).fs = fs := by
  cases r with
  | version => rfl
  | build root output changed all => exact absurd rfl (hbuild root output changed all)
  | problems root output =>
      rw [obey]
      apply withSettings_fs
      intro settings
      rcases s.withProblems_cases fs settings _ with ⟨message, heq⟩ | ⟨l, _, heq⟩
      · rw [heq]
        rfl
      · rw [heq]
        rfl
  | clean root => exact absurd rfl (hclean root)
  | runtimes root output =>
      rw [obey]
      apply withSettings_fs
      intro settings
      rfl
  | effectiveRuntime root =>
      rw [obey]
      apply withSettings_fs
      intro settings
      cases (runtimesOf settings).forProject? with
      | none => rfl
      | some r => rfl
  | setDefaultRuntime root output name =>
      rw [obey]
      apply withSettings_fs
      intro settings
      apply withRuntime_fs
      intro rs
      rfl
  | jars root name =>
      rw [obey]
      apply withSettings_fs
      intro settings
      apply withRuntime_fs
      intro rs
      rfl

theorem obey_refused {r : Request} (h : (s.obey fs r).status = notObeyed) :
    Refused fs (s.obey fs r) := by
  have hsame (hfs : (s.obey fs r).fs = fs) : Refused fs (s.obey fs r) :=
    ⟨h, by rw [hfs]; exact .refl fs⟩
  cases r with
  | build root output changed all =>
      rcases s.obey_build_cases fs root output changed all with
        hrefused | ⟨settings, compiler, l, _, hbuilt⟩
      · exact hrefused
      · exact absurd h hbuilt.status_ne
  | clean root =>
      rcases s.obey_clean_cases fs root with hrefused | ⟨settings, l, _, hcleaned⟩
      · exact hrefused
      · rw [hcleaned.status] at h
        cases h
  | _ => exact hsame (fs_obey (by simp) (by simp) s fs)

/-! ## What has been done -/

/-- The status of a build tells whether anything has been reported. -/
theorem Built.status_cases {changed : List String} {settings : Settings} {compiler : Command}
    {l : ProblemList} {ending : Ending} (h : s.Built fs changed settings compiler l ending) :
    (ending.status = errorsFound ∧
        ∃ r ∈ (s.buildPass fs changed settings compiler l).result.artifacts, r.diagnostics ≠ []) ∨
      (ending.status = 0 ∧
        ∀ r ∈ (s.buildPass fs changed settings compiler l).result.artifacts,
          r.diagnostics = []) := by
  rw [h.status]
  split
  · rename_i hpos
    exact .inl ⟨rfl, build_errors_pos_iff.mp hpos⟩
  · rename_i hpos
    refine .inr ⟨rfl, fun r hr => ?_⟩
    by_contra hne
    exact hpos (build_errors_pos_iff.mpr ⟨r, hr, hne⟩)

theorem obey_problems {root output : Option String} {settings : Settings} {l : ProblemList}
    (hsettings : (Request.problems root output).settings? fs = some settings)
    (hload : ProblemList.load fs settings.store settings.category = .ok l) (s : Session) :
    (s.obey fs (.problems root output)).status = 0 ∧
      (s.obey fs (.problems root output)).output = l.render (s.styleFor settings) := by
  rw [obey]
  rcases s.withSettings_cases fs root output none _ with
    ⟨e, herror, _⟩ | ⟨found, errors, hfound, heq⟩
  · rw [Request.settings?, herror] at hsettings
    cases hsettings
  · rw [Request.settings?, hfound] at hsettings
    cases hsettings
    rw [heq]
    simp only [withProblems, hload]
    exact ⟨rfl, rfl⟩

/-- Where the file is read that has been cleaned, its tool sees nothing. -/
theorem Cleaned.shows_nothing {settings : Settings} {l : ProblemList} {ending : Ending}
    (h : Cleaned fs settings l ending) {fs' : FileSystem} {root output : Option String}
    {settings' : Settings}
    (hsettings : (Request.problems root output).settings? fs' = some settings')
    (hcategory : settings'.category = settings.category)
    (hread : fs'.read settings'.store = ending.fs.read settings.store) (s : Session) :
    (s.obey fs' (.problems root output)).status = 0 ∧
      (s.obey fs' (.problems root output)).output =
        (ProblemList.empty settings.category).render (s.styleFor settings') := by
  have hl := ProblemList.category_of_load h.loaded
  have hload := ProblemList.load_of_read (hread.trans (ProblemList.read_of_save h.saved))
    settings'.category
  have hnothing : (l.clearAll.kept settings'.category).Alike (.empty settings.category) := by
    refine ⟨hcategory, fun a => ?_⟩
    have hown : ProblemList.own settings'.category (l.othersOf a) = [] := by
      rw [hcategory, ← hl]
      exact l.own_othersOf a
    have hcleared : (l.clearAll.kept settings'.category).markersOf a = l.othersOf a := by
      rw [ProblemList.markersOf_kept, ProblemList.markersOf_clearAll]
    rw [ProblemList.problems, hcleared]
    simp only [ProblemList.kept, hown, List.map_nil]
    rfl
  obtain ⟨hstatus, houtput⟩ := obey_problems hsettings hload s
  exact ⟨hstatus, houtput.trans (hnothing.render _)⟩

theorem answer_of_words {words : List String} {request : Request}
    (h : Request.ofWords words = .ok request) : s.answer fs words = s.obey fs request := by
  rw [answer, h]

/-- Whether everyone who asks for the problems of a project is shown none of a category. -/
def ShowsNothing (fs : FileSystem) (root : Option String) (category : String) : Prop :=
  ∀ (s : Session) (words : List String) (output : Option String),
    Request.ofWords words = .ok (.problems root output) →
    ∃ settings, (Request.problems root output).settings? fs = some settings ∧
      (s.answer fs words).status = 0 ∧
      (s.answer fs words).output = (ProblemList.empty category).render (s.styleFor settings)

/-- A project that has been cleaned and is found again has nothing to show. -/
theorem Cleaned.showsNothing {root : Option String} {settings : Settings} {l : ProblemList}
    {ending : Ending} (h : Cleaned fs settings l ending)
    (hsettings : (Request.clean root).settings? fs = some settings)
    (hsearch : Configuration.SameSearch fs ending.fs (Path.ofString (root.getD "."))) :
    ShowsNothing ending.fs root settings.category := by
  intro s words output hwords
  have hresolve : Settings.resolve fs root none none = .ok settings := by
    rw [Request.settings?] at hsettings
    cases hresolved : Settings.resolve fs root none none with
    | error e => simp [hresolved, Except.toOption] at hsettings
    | ok found =>
        rw [hresolved] at hsettings
        rw [Option.some.inj hsettings]
  obtain ⟨found, hfound, hstore, hcategory⟩ :=
    Settings.resolve_of_sameSearch hsearch hresolve output
  have hproblems : (Request.problems root output).settings? ending.fs = some found := by
    rw [Request.settings?, hfound]
    rfl
  rw [answer_of_words hwords]
  exact ⟨found, hproblems, h.shows_nothing hproblems hcategory (by rw [hstore]) s⟩

/-- The command line keeps its word. A call that ends with the status of a refusal has changed no
file, nor made one, though a directory for the problem list may be there; so whatever could be read
still says the same. A build that is not refused has saved the list it loaded, with the project
forgotten and each report recorded, and ends with the status for errors if it has reported anything,
all of which are errors. Asking for the problems changes nothing. Cleaning that is not refused
leaves the markers of the other tools alone. Whoever then asks for the problems from the same start
is shown none, unless the path of the problem list names a mark that was not there as a directory,
or the start leads somewhere only since then, or it leads nowhere and has a step up; and in any case
if the search for the project begins where it did and meets the same marks. So is whoever reads the
same file under the same category. -/
theorem answer_truthful (s : Session) (fs : FileSystem) (words : List String) :
    let ending := s.answer fs words
    (ending.status = notObeyed → fs.SameFiles ending.fs ∧
      ∀ path content, fs.read path = .ok content → ending.fs.read path = .ok content) ∧
    (∀ root output changed all,
      Request.ofWords words = .ok (.build root output changed all) → ending.status ≠ notObeyed →
      ∃ settings compiler l,
        (Request.build root output changed all).settings? fs = some settings ∧
        settings.compiler = some compiler ∧
        ProblemList.load fs settings.store settings.category = .ok l ∧
        let pass := s.buildPass fs changed settings compiler l
        ending.fs.read settings.store = .ok pass.recorded.store.toBytes ∧
        pass.recorded.store = (l.clear projectId).renewAll pass.result.artifacts ∧
        (∀ category, ∃ saved, ProblemList.load ending.fs settings.store category = .ok saved ∧
          ∀ a, saved.markersOf a = pass.recorded.store.markersOf a) ∧
        ending.output = pass.result.render (s.styleFor settings) ∧
        (∀ r ∈ pass.result.artifacts, ∀ d ∈ r.diagnostics, d.severity = .error) ∧
        ((ending.status = errorsFound ∧ ∃ r ∈ pass.result.artifacts, r.diagnostics ≠ []) ∨
          (ending.status = 0 ∧ ∀ r ∈ pass.result.artifacts, r.diagnostics = []))) ∧
    (∀ root output, Request.ofWords words = .ok (.problems root output) → ending.fs = fs) ∧
    (∀ root, Request.ofWords words = .ok (.clean root) → ending.status ≠ notObeyed →
      ∃ settings l, (Request.clean root).settings? fs = some settings ∧
        ProblemList.load fs settings.store settings.category = .ok l ∧
        (∀ category, ∃ saved, ProblemList.load ending.fs settings.store category = .ok saved ∧
          ∀ a, saved.markersOf a = (l.markersOf a).filter (·.category ≠ settings.category)) ∧
        (let start := Path.ofString (root.getD ".")
        Configuration.ClearOfMarks fs settings.store ∧ (fs.hasPath start = true ∨
              ending.fs.hasPath start = false ∧ .up ∉ start.components) ∨
            Configuration.SameSearch fs ending.fs start →
          ShowsNothing ending.fs root settings.category) ∧
        ∀ (s' : Session) (fs' : FileSystem) (words' : List String) (root' output' : Option String)
          (settings' : Settings), Request.ofWords words' = .ok (.problems root' output') →
          (Request.problems root' output').settings? fs' = some settings' →
          settings'.category = settings.category →
          fs'.read settings'.store = ending.fs.read settings.store →
          (s'.answer fs' words').status = 0 ∧
            (s'.answer fs' words').output =
              (ProblemList.empty settings.category).render (s'.styleFor settings')) := by
  intro ending
  refine ⟨fun hstatus => ?_, fun root output changed all hwords hstatus => ?_,
    fun root output hwords => ?_, fun root hwords hstatus => ?_⟩
  · have hwidens : fs.Widens ending.fs := by
      cases hwords : Request.ofWords words with
      | error e =>
          have hfs : ending.fs = fs := by simp only [ending, answer, hwords]
          rw [hfs]
          exact .refl fs
      | ok request =>
          have hending : ending = s.obey fs request := answer_of_words hwords
          rw [hending] at hstatus ⊢
          exact (obey_refused hstatus).widens
    exact ⟨hwidens.sameFiles, fun path content hread => hwidens.read hread⟩
  · have hending : ending = s.obey fs (.build root output changed all) := answer_of_words hwords
    rw [hending] at hstatus ⊢
    rcases s.obey_build_cases fs root output changed all with
      hrefused | ⟨settings, compiler, l, hsettings, hbuilt⟩
    · exact absurd hrefused.status hstatus
    · refine ⟨settings, compiler, l, hsettings, hbuilt.configured, hbuilt.loaded,
        ProblemList.read_of_save hbuilt.saved, build_list .., fun category => ?_, hbuilt.output,
        fun r hr d hd => build_severity hr hd, hbuilt.status_cases⟩
      exact ⟨_, ProblemList.load_of_save hbuilt.saved category, ProblemList.markersOf_kept _ _⟩
  · have hending : ending = s.obey fs (.problems root output) := answer_of_words hwords
    rw [hending]
    exact fs_obey (by simp) (by simp) s fs
  · have hending : ending = s.obey fs (.clean root) := answer_of_words hwords
    rw [hending] at hstatus ⊢
    rcases s.obey_clean_cases fs root with hrefused | ⟨settings, l, hsettings, hcleaned⟩
    · exact absurd hrefused.status hstatus
    · refine ⟨settings, l, hsettings, hcleaned.loaded, fun category => ?_, ?_, ?_⟩
      · refine ⟨_, ProblemList.load_of_save hcleaned.saved category, fun a => ?_⟩
        rw [ProblemList.markersOf_kept, ProblemList.markersOf_clearAll, ProblemList.othersOf,
          ProblemList.category_of_load hcleaned.loaded]
      · rintro start (⟨hclear, hstart⟩ | hsearch)
        · exact hcleaned.showsNothing hsettings
            (Configuration.sameSearch_of_save hcleaned.saved hclear hstart)
        · exact hcleaned.showsNothing hsettings hsearch
      · intro s' fs' words' root' output' settings' hwords' hsettings' hcategory hread
        rw [answer_of_words hwords']
        exact hcleaned.shows_nothing hsettings' hcategory hread s'

/-- A project with a rule text and a compiler that cannot be started. -/
def sampleProject : FileSystem :=
  let made : Except FileError FileSystem := do
    let fs ← FileSystem.empty.write ⟨["", "a.drl"]⟩ []
    fs.write ⟨["", "drlbuild.toml"]⟩ (bytesOf "[compiler]\ncommand = \"c\"\n")
  made.toOption.getD .empty

/-- A problem of the tool that is recorded in a repository. -/
def sampleRecorded : ProblemList :=
  (ProblemList.empty "drlbuild.problem").push "a.drl" (.error "m" (some 1))

/-- Where problems are kept if nothing else is said. -/
def sampleStore : Path := ⟨["", ".drlbuild", "problems.json"]⟩

def sampleRepository : FileSystem :=
  let made : Except FileError FileSystem := do
    let fs ← FileSystem.empty.ensureDirectory ⟨["", ".git"]⟩
    let fs ← fs.ensureDirectory ⟨["", "q"]⟩
    let fs ← fs.ensureDirectory ⟨["", ".drlbuild"]⟩
    fs.write sampleStore sampleRecorded.toBytes
  { made.toOption.getD .empty with current := ["q"] }

/-- The repository with a problem list that cannot be written. -/
def protectedRepository : FileSystem :=
  { sampleRepository with
    refuses := fun place => if place = [".drlbuild", "problems.json"] then some .notPermitted
      else none }

def sampleSession : Session := ⟨fun _ => .error .notFound, false⟩

theorem sampleProject_answered :
    (sampleSession.answer protectedRepository ["clean"]).status = notObeyed ∧
      (sampleSession.answer protectedRepository ["clean"]).fs.read sampleStore =
        .ok sampleRecorded.toBytes ∧
      (sampleSession.answer sampleProject ["build"]).status = errorsFound ∧
      (∃ settings, (Request.build none none [] false).settings? sampleProject = some settings ∧
        ∃ bytes, (sampleSession.answer sampleProject ["build"]).fs.read settings.store =
          .ok bytes) ∧
      (sampleSession.answer sampleProject ["problems"]).fs = sampleProject ∧
      (sampleSession.answer sampleRepository ["clean"]).status = 0 ∧
      (sampleSession.answer (sampleSession.answer sampleRepository ["clean"]).fs
        ["problems", "--output", "json"]).output =
          (ProblemList.empty "drlbuild.problem").render .json := by
  -- The calls on the repository are evaluated at once, since they read the same list.
  obtain ⟨hrefused, hcleaned, hstyle⟩ :
      (sampleSession.answer protectedRepository ["clean"]).status = notObeyed ∧
        (sampleSession.answer sampleRepository ["clean"]).status = 0 ∧
        ((Request.problems none (some "json")).settings?
          (sampleSession.answer sampleRepository ["clean"]).fs).map sampleSession.styleFor =
            some .json := by decide +kernel
  have hrecorded : protectedRepository.read sampleStore = .ok sampleRecorded.toBytes := rfl
  have hbuilt : (sampleSession.answer sampleProject ["build"]).status = errorsFound := by
    decide +kernel
  have hsettings : (Request.clean none).settings? sampleRepository =
      some (.ofConfiguration ⟨["", ""]⟩ none none none) := by decide +kernel
  obtain ⟨_, hspared⟩ := (answer_truthful sampleSession protectedRepository ["clean"]).1 hrefused
  obtain ⟨settings, compiler, l, hbuild, _, _, hbytes, _⟩ :=
    (answer_truthful sampleSession sampleProject ["build"]).2.1 none none [] false rfl
      (by rw [hbuilt]; decide)
  obtain ⟨found, _, hfound, _, _, hshows, _⟩ :=
    (answer_truthful sampleSession sampleRepository ["clean"]).2.2.2 none rfl
      (by rw [hcleaned]; decide)
  cases hsettings.symm.trans hfound
  have hclear : Configuration.ClearOfMarks sampleRepository sampleStore :=
    Configuration.clearOfMarks_of_not_mem (by decide)
  obtain ⟨shown, hshown, _, houtput⟩ := hshows (.inl ⟨hclear, .inl rfl⟩) sampleSession
    ["problems", "--output", "json"] (some "json") rfl
  rw [hshown] at hstyle
  rw [Option.some.inj hstyle] at houtput
  exact ⟨hrefused, hspared _ _ hrecorded, hbuilt, ⟨settings, hbuild, _, hbytes⟩,
    (answer_truthful sampleSession sampleProject ["problems"]).2.2.1 none none rfl, hcleaned,
    houtput⟩

/-- A project whose problem list is its configuration file, where the problems have been recorded
that are kept if nothing else is said. -/
def selfKeptProject : FileSystem :=
  let made : Except FileError FileSystem := do
    let fs ← FileSystem.empty.ensureDirectory ⟨["", ".drlbuild"]⟩
    let fs ← fs.write sampleStore sampleRecorded.toBytes
    fs.write ⟨["", "drlbuild.yaml"]⟩
      (bytesOf "\x7b\"version\":1,\"markers\":\x7b\x7d,\"store\":\"drlbuild.yaml\"\x7d")
  made.toOption.getD .empty

/-- A project in a repository, started from above it. It keeps its problems in a directory that is
missing. -/
def nestedProject : FileSystem :=
  let made : Except FileError FileSystem := do
    let fs ← sampleRepository.ensureDirectory ⟨["", "p"]⟩
    fs.write ⟨["", "p", "drlbuild.yaml"]⟩ (bytesOf "store: n/problems.json")
  { made.toOption.getD .empty with current := [] }

/-- Where the problem list is what has been recorded, it is shown. -/
theorem shows_recorded {root : Option String} {settings : Settings} (words : List String)
    (hwords : Request.ofWords words = .ok (.problems root none))
    (hsettings : (Request.problems root none).settings? fs = some settings)
    (hcategory : settings.category = "drlbuild.problem")
    (hstyle : sampleSession.styleFor settings = .plain)
    (hread : fs.read settings.store = .ok sampleRecorded.toBytes) :
    (sampleSession.answer fs words).status = 0 ∧
      (sampleSession.answer fs words).output =
        "✖ ⟦error⟧ a.drl:1 m\n— Problems — errors=1 artifacts=1\n" := by
  have hshown : (sampleRecorded.kept "drlbuild.problem").render .plain =
      "✖ ⟦error⟧ a.drl:1 m\n— Problems — errors=1 artifacts=1\n" := by decide +kernel
  obtain ⟨hstatus, houtput⟩ :=
    obey_problems hsettings (ProblemList.load_of_read hread _) sampleSession
  rw [answer_of_words hwords, ← hshown, houtput, hcategory, hstyle]
  exact ⟨hstatus, rfl⟩

/-- A directory that is missing is its own project until cleaning makes it; from then on it belongs
to the repository that it lies in, and the next call reads another file. A start that leads nowhere,
but up past a directory that cleaning makes, is then found to lie in the repository too. And where
the problem list is the configuration file, cleaning leaves one that names no list any more. -/
theorem sampleRepository_still_shows :
    let made := sampleSession.answer sampleRepository ["clean", "--project-root", "new"]
    let found := sampleSession.answer made.fs ["problems", "--project-root", "new"]
    let stepped := sampleSession.answer nestedProject ["clean", "--project-root", "p/n/../../z"]
    let left := sampleSession.answer stepped.fs ["problems", "--project-root", "p/n/../../z"]
    let rewritten := sampleSession.answer selfKeptProject ["clean"]
    let read := sampleSession.answer rewritten.fs ["problems"]
    let nothing := (ProblemList.empty "drlbuild.problem").render .plain
    (made.status = 0 ∧ found.status = 0 ∧ found.output ≠ nothing) ∧
      (stepped.status = 0 ∧ left.status = 0 ∧ left.output ≠ nothing) ∧
      rewritten.status = 0 ∧ read.status = 0 ∧ read.output ≠ nothing := by
  intro made found stepped left rewritten read nothing
  have hnothing : "✖ ⟦error⟧ a.drl:1 m\n— Problems — errors=1 artifacts=1\n" ≠ nothing := by
    decide +kernel
  obtain ⟨hmade, hsettings, hread⟩ : made.status = 0 ∧
      (Request.problems (some "new") none).settings? made.fs =
        some (.ofConfiguration ⟨["", ""]⟩ none none none) ∧
      made.fs.read sampleStore = .ok sampleRecorded.toBytes := by decide +kernel
  obtain ⟨hfoundStatus, hfound⟩ :=
    shows_recorded ["problems", "--project-root", "new"] rfl hsettings rfl rfl hread
  obtain ⟨hstepped, hsettings, hread⟩ : stepped.status = 0 ∧
      (Request.problems (some "p/n/../../z") none).settings? stepped.fs =
        some (.ofConfiguration ⟨["p", "n", "..", ".."]⟩ none none none) ∧
      stepped.fs.read ⟨["p", "n", "..", "..", ".drlbuild", "problems.json"]⟩ =
        .ok sampleRecorded.toBytes := by decide +kernel
  obtain ⟨hleftStatus, hleft⟩ :=
    shows_recorded ["problems", "--project-root", "p/n/../../z"] rfl hsettings rfl rfl hread
  obtain ⟨hrewritten, hsettings, hread⟩ : rewritten.status = 0 ∧
      (Request.problems none none).settings? rewritten.fs =
        some (.ofConfiguration ⟨["", ""]⟩ (some .empty) none none) ∧
      rewritten.fs.read sampleStore = .ok sampleRecorded.toBytes := by decide +kernel
  obtain ⟨hreadStatus, hshown⟩ := shows_recorded ["problems"] rfl hsettings rfl rfl hread
  exact ⟨⟨hmade, hfoundStatus, hfound.trans_ne hnothing⟩,
    ⟨hstepped, hleftStatus, hleft.trans_ne hnothing⟩, hrewritten, hreadStatus,
    hshown.trans_ne hnothing⟩

end Session

end RuleBuild
