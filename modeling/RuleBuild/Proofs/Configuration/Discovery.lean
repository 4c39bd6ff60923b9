import RuleBuild.Configuration.File
import RuleBuild.Proofs.Configuration.Faults
import RuleBuild.Proofs.Path.Parent

/-!
# Where the root of a project is found

The search for the root goes up from the start until it meets a mark, and ends with the closest
directory that has one. The configuration is what the preferred file in this very directory says,
whatever is found above it.
-/
namespace RuleBuild.Configuration

/-! ## Marks -/

/-- The names that mark the root of a project. -/
def marks : List String := ["drlbuild.toml", "drlbuild.yaml", "drlbuild.yml", ".git"]

/-- Whether a directory has a mark. -/
def IsMarked (fs : FileSystem) (dir : Path) : Prop :=
  ∃ name ∈ marks, fs.hasPath (dir.join (Path.ofString name)) = true

instance (fs : FileSystem) (dir : Path) : Decidable (IsMarked fs dir) :=
  inferInstanceAs (Decidable (∃ name ∈ marks, fs.hasPath (dir.join (Path.ofString name)) = true))

/-- The file among those of a directory that is preferred to the others that exist. -/
structure IsPreferred (fs : FileSystem) (dir path : Path) (format : FileFormat) : Prop where
  exists_path : fs.hasPath path = true
  first : ∃ name before after, fileNames = before ++ (name, format) :: after ∧
    path = dir.join (Path.ofString name) ∧
      ∀ f ∈ before, fs.hasPath (dir.join (Path.ofString f.1)) = false

theorem fileIn?_eq_none_iff {fs : FileSystem} {dir : Path} :
    fileIn? fs dir = none ↔
      ∀ f ∈ fileNames, fs.hasPath (dir.join (Path.ofString f.1)) = false := by
  simp only [fileIn?, List.find?_eq_none, List.forall_mem_map, Bool.not_eq_true]

theorem isPreferred_of_fileIn? {fs : FileSystem} {dir path : Path} {format : FileFormat}
    (h : fileIn? fs dir = some (path, format)) : IsPreferred fs dir path format := by
  rw [fileIn?, List.find?_eq_some_iff_append] at h
  obtain ⟨hpath, before, after, hsplit, hbefore⟩ := h
  refine ⟨hpath, ?_⟩
  obtain ⟨fs₁, rest, hnames, hfs₁, hrest⟩ := List.map_eq_append_iff.mp hsplit
  obtain ⟨⟨name, format'⟩, fs₂, rfl, hfile, _⟩ := List.map_eq_cons_iff.mp hrest
  obtain ⟨rfl, rfl⟩ := Prod.mk.inj hfile
  refine ⟨name, fs₁, fs₂, hnames, rfl, fun f hf => ?_⟩
  have hmem := hbefore _ (hfs₁ ▸ List.mem_map_of_mem hf)
  simpa using hmem

theorem isRoot_iff {fs : FileSystem} {dir : Path} : isRoot fs dir = true ↔ IsMarked fs dir := by
  have hfile : (fileIn? fs dir).isSome = true ↔
      ∃ f ∈ fileNames, fs.hasPath (dir.join (Path.ofString f.1)) = true := by
    rw [← not_iff_not, Option.not_isSome_iff_eq_none, fileIn?_eq_none_iff]
    simp
  rw [isRoot, Bool.or_eq_true, hfile]
  simp only [IsMarked, marks, fileNames, List.mem_cons, List.not_mem_nil, or_false, exists_eq_or_imp,
    exists_eq_left, or_assoc]

/-! ## The search -/

/-- The search from `start` as it goes on in a directory, and the root that it ends with. Nothing
bounds its steps. -/
inductive Search (fs : FileSystem) (start : Path) : Path → Path → Prop
  | found {dir : Path} (h : IsMarked fs dir) : Search fs start dir dir
  | above {dir parent root : Path} (h : ¬ IsMarked fs dir) (hparent : dir.parent? = some parent)
      (hrest : Search fs start parent root) : Search fs start dir root
  | given {dir : Path} (h : ¬ IsMarked fs dir) (hparent : dir.parent? = none) :
      Search fs start dir start

namespace Search

variable {fs : FileSystem} {start dir root root' : Path}

theorem unique (h : Search fs start dir root) (h' : Search fs start dir root') : root = root' := by
  induction h with
  | found hmarked =>
      cases h' with
      | found => rfl
      | above hno => exact absurd hmarked hno
      | given hno => exact absurd hmarked hno
  | above hno hparent _ ih =>
      cases h' with
      | found hmarked => exact absurd hmarked hno
      | above _ hparent' hrest' =>
          cases hparent.symm.trans hparent'
          exact ih hrest'
      | given _ hnone => rw [hparent] at hnone; cases hnone
  | given hno hnone =>
      cases h' with
      | found hmarked => exact absurd hmarked hno
      | above _ hparent => rw [hnone] at hparent; cases hparent
      | given => rfl

/-- The search ends with a marked directory that every other one on the way up encloses, or with the
start if there is none. -/
theorem nearest (h : Search fs start dir root) :
    (root.Encloses dir ∧ IsMarked fs root ∧
        ∀ p : Path, p.Encloses dir → IsMarked fs p → p.Encloses root) ∨
      root = start ∧ ∀ p : Path, p.Encloses dir → ¬ IsMarked fs p := by
  induction h with
  | found hmarked => exact .inl ⟨.refl _, hmarked, fun p hp _ => hp⟩
  | @above dir parent root hno hparent _ ih =>
      -- Whoever encloses the directory and has a mark encloses its parent as well.
      have hup {p : Path} (hp : p.Encloses dir) (hmarked : IsMarked fs p) : p.Encloses parent := by
        rcases hp.cases_parent? with rfl | ⟨r, hr, hrest⟩
        · exact absurd hmarked hno
        · cases hparent.symm.trans hr
          exact hrest
      rcases ih with ⟨hencloses, hmarked, hnearest⟩ | ⟨heq, hnone⟩
      · exact .inl ⟨.of_parent? hparent hencloses, hmarked,
          fun p hp hp' => hnearest p (hup hp hp') hp'⟩
      · exact .inr ⟨heq, fun p hp hp' => hnone p (hup hp hp') hp'⟩
  | given hno hnone =>
      refine .inr ⟨rfl, fun p hp => ?_⟩
      rcases hp.cases_parent? with rfl | ⟨r, hr, _⟩
      · exact hno
      · rw [hnone] at hr
        cases hr

end Search

/-- With more steps than the path has components, the search comes to its end. -/
theorem search_rootAbove? {fs : FileSystem} {start dir : Path} {steps : Nat}
    (h : dir.components.length < steps) :
    Search fs start dir ((rootAbove? fs steps dir).getD start) := by
  induction steps generalizing dir with
  | zero => cases h
  | succ steps ih =>
      rw [rootAbove?]
      by_cases hroot : isRoot fs dir = true
      · rw [if_pos hroot]
        exact .found (isRoot_iff.mp hroot)
      · rw [if_neg hroot]
        have hno : ¬ IsMarked fs dir := fun hmarked => hroot (isRoot_iff.mpr hmarked)
        cases hparent : dir.parent? with
        | none => exact .given hno hparent
        | some parent =>
            have hlt := Path.length_components_of_parent? hparent
            exact .above hno hparent (ih (by omega))

/-- Where the search begins: at the canonical path of the start, or at the start as it is given if
it leads nowhere. -/
def searchStart (fs : FileSystem) (start : Path) : Path := (fs.canonical start).toOption.getD start

theorem searchStart_of_locate {fs : FileSystem} {start : Path} {place : Location}
    (h : fs.locate start = .ok place) : searchStart fs start = FileSystem.pathTo place := by
  rw [searchStart, FileSystem.canonical, h]
  rfl

theorem searchStart_of_missing {fs : FileSystem} {start : Path} (h : fs.hasPath start = false) :
    searchStart fs start = start := by
  rw [FileSystem.hasPath] at h
  rw [searchStart, FileSystem.canonical]
  cases hlocate : fs.locate start with
  | error e => rfl
  | ok place =>
      rw [hlocate] at h
      cases h

theorem search_projectRoot (fs : FileSystem) (start : Path) :
    Search fs (searchStart fs start) (searchStart fs start) (projectRoot fs start) :=
  search_rootAbove? (Nat.lt_succ_of_le (Path.length_components_le _))

theorem projectRoot_encloses (fs : FileSystem) (start : Path) :
    (projectRoot fs start).Encloses (searchStart fs start) := by
  rcases (search_projectRoot fs start).nearest with ⟨hencloses, _⟩ | ⟨heq, _⟩
  · exact hencloses
  · rw [heq]
    exact .refl _

/-! ## The configuration of the root -/

/-- What may come of reading a file as a configuration. -/
inductive Reads (fs : FileSystem) (path : Path) (format : FileFormat) :
    Except ConfigurationError Configuration → Prop
  | unreadable {e : FileError} (h : fs.readText path = .error e) :
      Reads fs path format (.error (.file e))
  | malformed {s : String} (h : fs.readText path = .ok s) (htext : ofText? format s = none) :
      Reads fs path format (.error (.malformed format path))
  | invalid {s : String} {c : Configuration} {fault : ConfigurationFault}
      (h : fs.readText path = .ok s) (htext : ofText? format s = some c)
      (hfault : c.fault? = some fault) : Reads fs path format (.error (.invalid fault))
  | accepted {s : String} {c : Configuration} (h : fs.readText path = .ok s)
      (htext : ofText? format s = some c) (hsound : c.Sound) : Reads fs path format (.ok c)

theorem load_cases (fs : FileSystem) (dir : Path) :
    (fileIn? fs dir = none ∧ load fs dir = .ok none) ∨
      ∃ path format outcome, fileIn? fs dir = some (path, format) ∧ Reads fs path format outcome ∧
        load fs dir = outcome.map some := by
  unfold load
  cases fileIn? fs dir with
  | none => exact .inl ⟨rfl, rfl⟩
  | some file =>
      obtain ⟨path, format⟩ := file
      refine .inr ⟨path, format, ?_⟩
      dsimp only
      cases hread : fs.readText path with
      | error e => exact ⟨_, rfl, .unreadable hread, rfl⟩
      | ok s =>
          dsimp only
          cases htext : ofText? format s with
          | none => exact ⟨_, rfl, .malformed hread htext, rfl⟩
          | some c =>
              dsimp only
              cases hfault : c.fault? with
              | some fault => exact ⟨_, rfl, .invalid hread htext hfault, rfl⟩
              | none => exact ⟨_, rfl, .accepted hread htext (fault?_eq_none_iff.mp hfault), rfl⟩

/-- What is loaded has been accepted. -/
theorem sound_of_load {fs : FileSystem} {dir : Path} {c : Configuration}
    (h : load fs dir = .ok (some c)) : c.Sound := by
  rcases load_cases fs dir with ⟨_, hnone⟩ | ⟨path, format, outcome, _, hreads, hload⟩
  · rw [hnone] at h
    cases h
  · rw [hload] at h
    cases hreads with
    | accepted _ _ hsound =>
        cases h
        exact hsound
    | _ => cases h

/-- The configuration that has been found, or the one that says nothing, has no fault. -/
theorem sound_getD_of_load {fs : FileSystem} {dir : Path} {found : Option Configuration}
    (h : load fs dir = .ok found) : (found.getD .empty).Sound := by
  cases found with
  | none => exact sound_empty
  | some c => exact sound_of_load h

theorem load_eq_none_iff {fs : FileSystem} {dir : Path} :
    load fs dir = .ok none ↔
      ∀ f ∈ fileNames, fs.hasPath (dir.join (Path.ofString f.1)) = false := by
  rw [← fileIn?_eq_none_iff]
  rcases load_cases fs dir with ⟨hfile, hload⟩ | ⟨path, format, outcome, hfile, _, hload⟩
  · exact iff_of_true hload hfile
  · rw [hfile, hload]
    cases outcome <;> simp [Except.map]

/-! ## The closest root -/

/-- The search for the root of a project comes to an end, and what it ends with is the longest of
the paths on the way up that have a mark, or where it began if none has one. The configuration is
then read from the preferred file of this directory; there is none only if the directory has no such
file. -/
theorem root_is_nearest (fs : FileSystem) (start : Path) :
    let s := searchStart fs start
    let root := projectRoot fs start
    (∀ found, Search fs s s found ↔ found = root) ∧
      ((∃ p : Path, p.Encloses s ∧ IsMarked fs p) →
        root.Encloses s ∧ IsMarked fs root ∧
          ∀ p : Path, p.Encloses s → IsMarked fs p → p ≠ root →
            p.components.length < root.components.length) ∧
      ((∀ p : Path, p.Encloses s → ¬ IsMarked fs p) → root = s) ∧
      (load fs root = .ok none ↔
        ∀ f ∈ fileNames, fs.hasPath (root.join (Path.ofString f.1)) = false) ∧
      ((∃ f ∈ fileNames, fs.hasPath (root.join (Path.ofString f.1)) = true) →
        ∃ path format outcome, IsPreferred fs root path format ∧ Reads fs path format outcome ∧
          load fs root = outcome.map some) := by
  intro s root
  have hsearch : Search fs s s root := search_projectRoot fs start
  refine ⟨fun found => ⟨fun h => h.unique hsearch, fun heq => heq ▸ hsearch⟩, ?_, ?_,
    load_eq_none_iff, ?_⟩
  · rintro ⟨p, hp, hmarked⟩
    rcases hsearch.nearest with ⟨hencloses, hroot, hnearest⟩ | ⟨_, hnone⟩
    · refine ⟨hencloses, hroot, fun q hq hq' hne => ?_⟩
      exact (hnearest q hq hq').eq_or_shorter.resolve_left hne
    · exact absurd hmarked (hnone p hp)
  · intro hnone
    rcases hsearch.nearest with ⟨hencloses, hroot, _⟩ | ⟨heq, _⟩
    · exact absurd hroot (hnone root hencloses)
    · exact heq
  · rintro ⟨f, hf, hpath⟩
    rcases load_cases fs root with ⟨hfile, _⟩ | ⟨path, format, outcome, hfile, hreads, hload⟩
    · rw [fileIn?_eq_none_iff.mp hfile f hf] at hpath
      cases hpath
    · exact ⟨path, format, outcome, isPreferred_of_fileIn? hfile, hreads, hload⟩

/-- A repository without a configuration, in a directory with two. -/
def nestedRepository : FileSystem :=
  let made : Except FileError FileSystem := do
    let fs ← FileSystem.empty.write ⟨["", "drlbuild.toml"]⟩ (bytesOf "output = \"json\"\n")
    let fs ← fs.write ⟨["", "drlbuild.yml"]⟩ []
    let fs ← fs.ensureDirectory ⟨["", "p", ".git"]⟩
    fs.ensureDirectory ⟨["", "p", "q"]⟩
  { made.toOption.getD .empty with current := ["p"] }

theorem nestedRepository_found :
    let above : Path := ⟨["", ""]⟩
    let root : Path := ⟨["", "p"]⟩
    projectRoot nestedRepository ⟨["q"]⟩ = root ∧ load nestedRepository root = .ok none ∧
      above.Encloses ⟨["", "p", "q"]⟩ ∧ IsMarked nestedRepository above ∧
      above.components.length < root.components.length ∧
      projectRoot nestedRepository ⟨["q", "..", ".."]⟩ = above ∧
      (∃ path format outcome, IsPreferred nestedRepository above path format ∧
        Reads nestedRepository path format outcome ∧
          load nestedRepository above = outcome.map some) ∧
      projectRoot .empty ⟨["x"]⟩ = ⟨["x"]⟩ := by
  intro above root
  have hroot : projectRoot nestedRepository ⟨["q"]⟩ = root := by decide +kernel
  have hstart : searchStart nestedRepository ⟨["q"]⟩ = ⟨["", "p", "q"]⟩ := by decide +kernel
  have habove : projectRoot nestedRepository ⟨["q", "..", ".."]⟩ = above := by decide +kernel
  have hmarked : IsMarked nestedRepository above := ⟨"drlbuild.toml", by decide +kernel⟩
  have hencloses : above.Encloses ⟨["", "p", "q"]⟩ := .of_parent? rfl (.of_parent? rfl (.refl _))
  obtain ⟨_, hnearest, _, hload, _⟩ := root_is_nearest nestedRepository ⟨["q"]⟩
  obtain ⟨_, _, _, _, hreads⟩ := root_is_nearest nestedRepository ⟨["q", "..", ".."]⟩
  obtain ⟨_, _, hgiven, _⟩ := root_is_nearest .empty ⟨["x"]⟩
  have hx : searchStart .empty ⟨["x"]⟩ = ⟨["x"]⟩ := by decide +kernel
  rw [hroot] at hnearest hload
  rw [hstart] at hnearest
  rw [habove] at hreads
  obtain ⟨_, _, hlongest⟩ := hnearest ⟨above, hencloses, hmarked⟩
  refine ⟨hroot, hload.mpr (by decide +kernel), hencloses, hmarked,
    hlongest above hencloses hmarked (by decide), habove,
    hreads ⟨("drlbuild.toml", .toml), by decide, by decide +kernel⟩, hgiven fun p hp => ?_⟩
  -- A start that leads nowhere is enclosed by the path written with nothing alone.
  rw [hx] at hp
  rcases hp.cases_parent? with rfl | ⟨q, hq, hp⟩
  · decide +kernel
  · obtain rfl := Option.some.inj hq
    rcases hp.cases_parent? with rfl | ⟨r, hr, _⟩
    · decide +kernel
    · cases hr

end RuleBuild.Configuration
