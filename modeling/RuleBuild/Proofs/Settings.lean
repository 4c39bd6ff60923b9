import RuleBuild.Proofs.Configuration.Discovery
import RuleBuild.Proofs.FileSystem.Walk
import RuleBuild.Proofs.Path.Resolution
import RuleBuild.Settings

/-!
# Settings that commands can rely on

Settings are put together from what is asked for at the call, what a configuration says that has
been accepted, and the defaults. The paths among them are as absolute as the root is, and the root
as absolute as the start of the search for it.
-/
namespace RuleBuild.Configuration

/-! ## The root -/

theorem isAbsolute_searchStart {fs : FileSystem} {start : Path} :
    (searchStart fs start).isAbsolute = true ↔
      fs.hasPath start = true ∨ start.isAbsolute = true := by
  rw [searchStart, FileSystem.hasPath]
  cases hcanonical : fs.canonical start with
  | ok root =>
      refine iff_of_true (FileSystem.isAbsolute_of_canonical hcanonical) (.inl ?_)
      cases hlocate : fs.locate start with
      | ok place => rfl
      | error e => simp [FileSystem.canonical, hlocate, Except.map] at hcanonical
  | error e =>
      cases hlocate : fs.locate start with
      | ok place => simp [FileSystem.canonical, hlocate, Except.map] at hcanonical
      | error e' => simp [Except.toOption, Except.isOk, Except.toBool]

theorem isAbsolute_projectRoot (fs : FileSystem) (start : Path) :
    (projectRoot fs start).isAbsolute = (searchStart fs start).isAbsolute :=
  (projectRoot_encloses fs start).isAbsolute

end Configuration

namespace Settings

/-! ## What has been resolved -/

theorem resolve_eq (fs : FileSystem) (start output : Option String) (buildAll : Option Bool) :
    resolve fs start output buildAll =
      let root := Configuration.projectRoot fs (Path.ofString (start.getD "."))
      (Configuration.load fs root).map fun found =>
        ofConfiguration root found output buildAll := by
  simp only [resolve]
  cases Configuration.load fs (Configuration.projectRoot fs (Path.ofString (start.getD "."))) with
  | error e => rfl
  | ok found => rfl

theorem exists_load_of_resolve {fs : FileSystem} {start output : Option String}
    {buildAll : Option Bool} {s : Settings} (h : resolve fs start output buildAll = .ok s) :
    s.root = Configuration.projectRoot fs (Path.ofString (start.getD ".")) ∧
      ∃ found, Configuration.load fs s.root = .ok found ∧
        s = ofConfiguration s.root found output buildAll := by
  rw [resolve_eq] at h
  dsimp only at h
  cases hload : Configuration.load fs
      (Configuration.projectRoot fs (Path.ofString (start.getD "."))) with
  | error e =>
      rw [hload] at h
      cases h
  | ok found =>
      rw [hload] at h
      cases h
      exact ⟨rfl, found, hload, rfl⟩

/-- What is asked for at the call counts before what the configuration says, and that before the
default; each of them names an output format if what is asked for does. -/
theorem output_ofConfiguration {root : Path} {found : Option Configuration}
    {output : Option String} {buildAll : Option Bool} (hsound : (found.getD .empty).Sound)
    (hasked : ∀ o ∈ output, o ∈ Configuration.outputs) :
    (ofConfiguration root found output buildAll).output ∈ Configuration.outputs := by
  rw [ofConfiguration]
  dsimp only
  cases output with
  | some o => exact hasked o rfl
  | none =>
      rw [Option.none_or]
      cases hconfigured : (found.getD .empty).output with
      | some o => exact hsound.output o hconfigured
      | none => decide

/-- Settings that have been resolved name an output format, provided that the call does if it names
one. Their root is absolute exactly if the start of the search leads somewhere or is absolute
itself, and the other paths are if the root is or if the configuration says so. The programs have
names, and the names of the runtimes are distinct. -/
theorem resolved_settings_valid (fs : FileSystem) (start output : Option String)
    (buildAll : Option Bool) (s : Settings) (h : resolve fs start output buildAll = .ok s) :
    let given := Path.ofString (start.getD ".")
    ((∀ o ∈ output, o ∈ Configuration.outputs) → s.output ∈ Configuration.outputs) ∧
      (s.root.isAbsolute = true ↔ fs.hasPath given = true ∨ given.isAbsolute = true) ∧
      (∃ found, Configuration.load fs s.root = .ok found ∧
        (s.store.isAbsolute = true ↔ s.root.isAbsolute = true ∨
          (Path.ofString ((found.getD .empty).store.getD defaultStore)).isAbsolute = true) ∧
        ∀ dir ∈ s.outputDir, ∃ text ∈ (found.getD .empty).outputDir,
          (dir.isAbsolute = true ↔
            s.root.isAbsolute = true ∨ (Path.ofString text).isAbsolute = true)) ∧
      (∀ command ∈ s.compiler, Text.isBlankText command.program = false) ∧
      (∀ command ∈ s.converter, Text.isBlankText command.program = false) ∧
      (s.runtimes.map Runtime.name).Nodup := by
  intro given
  obtain ⟨hroot, found, hload, hs⟩ := exists_load_of_resolve h
  have hsound := Configuration.sound_getD_of_load hload
  have habs (text : String) : (s.root.join (Path.ofString text)).isAbsolute = true ↔
      s.root.isAbsolute = true ∨ (Path.ofString text).isAbsolute = true := by
    rw [Path.isAbsolute_join_eq (Path.ofString_pieces_ne_nil text), Bool.or_eq_true]
  refine ⟨fun hasked => ?_, ?_, ⟨found, hload, ?_, fun dir hdir => ?_⟩, ?_, ?_, ?_⟩
  · rw [hs]
    exact output_ofConfiguration hsound hasked
  · rw [hroot, Configuration.isAbsolute_projectRoot, Configuration.isAbsolute_searchStart]
  · have hstore := congrArg Settings.store hs
    rw [hstore]
    exact habs _
  · have houtput := congrArg Settings.outputDir hs
    rw [houtput] at hdir
    obtain ⟨text, htext, rfl⟩ := Option.map_eq_some_iff.mp hdir
    exact ⟨text, htext, habs text⟩
  · rw [congrArg Settings.compiler hs]
    exact hsound.compiler
  · rw [congrArg Settings.converter hs]
    exact hsound.converter
  · rw [congrArg Settings.runtimes hs]
    exact hsound.runtimes

/-- A project with settings of its own, looked at from a directory in it. -/
def configuredProject : FileSystem :=
  let text := "output = \"json\"\noutput_dir = \"target\"\nstore = \"/var/p.json\"\n" ++
    "[compiler]\ncommand = \"c\"\n[[runtimes]]\nname = \"a\"\n[[runtimes]]\nname = \"b\"\n"
  let made : Except FileError FileSystem := do
    let fs ← FileSystem.empty.ensureDirectory ⟨["", "p", "rules"]⟩
    fs.write ⟨["", "p", "drlbuild.toml"]⟩ (bytesOf text)
  { made.toOption.getD .empty with current := ["p", "rules"] }

theorem configuredProject_resolved :
    let runtime (name : String) : Runtime := ⟨name, "", none, none, false, []⟩
    let s : Settings := ⟨⟨["", "p"]⟩, "json", some ⟨["", "p", "target"]⟩, ⟨["", "var", "p.json"]⟩,
      "drlbuild.problem", false, some ⟨"c", []⟩, none, none, [runtime "a", runtime "b"], true⟩
    resolve configuredProject none none none = .ok s ∧ s.output ∈ Configuration.outputs ∧
      s.root.isAbsolute = true ∧ s.store.isAbsolute = true ∧
      (∀ dir ∈ s.outputDir, dir.isAbsolute = true) ∧
      (∀ command ∈ s.compiler, Text.isBlankText command.program = false) ∧
      (s.runtimes.map Runtime.name).Nodup := by
  intro runtime s
  have h : resolve configuredProject none none none = .ok s := by decide +kernel
  obtain ⟨houtput, hroot, ⟨_, _, hstore, hdirs⟩, hcompiler, _, hruntimes⟩ :=
    resolved_settings_valid configuredProject none none none s h
  have habs : s.root.isAbsolute = true := hroot.mpr (.inl (by decide +kernel))
  refine ⟨h, houtput (by simp), habs, hstore.mpr (.inl habs), fun dir hdir => ?_, hcompiler,
    hruntimes⟩
  obtain ⟨_, _, hiff⟩ := hdirs dir hdir
  exact hiff.mpr (.inl habs)

/-- A start that leads nowhere is taken as it is given, and the output format that the call names is
taken without a look at it. -/
theorem missing_start_not_absolute :
    (∃ s, resolve .empty (some "new") none none = .ok s ∧ s.root.isAbsolute = false ∧
        s.store.isAbsolute = false) ∧
      ∃ s, resolve .empty none (some "xml") none = .ok s ∧
        s.output ∉ Configuration.outputs := by
  refine ⟨⟨ofConfiguration ⟨["new"]⟩ none none none, ?_, ?_, ?_⟩,
    ofConfiguration ⟨["", ""]⟩ none (some "xml") none, ?_, ?_⟩
  · decide +kernel
  · decide +kernel
  · decide +kernel
  · decide +kernel
  · decide +kernel

end Settings
end RuleBuild
