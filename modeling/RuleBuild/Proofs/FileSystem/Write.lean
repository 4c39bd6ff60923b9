import Mathlib.Data.List.DropRight
import RuleBuild.Proofs.FileSystem.Walk
import RuleBuild.Proofs.Path.Parent

/-!
# What writing changes

Making a directory adds directories and nothing else, however far it gets; writing a file changes
what is found at one place. Unless it is refused, a path that leads to a file can be written again,
and its directory need not be made again.
-/
namespace RuleBuild

namespace FileSystem

theorem eq_of_entries {fs fs' : FileSystem} (hentries : fs.entries = fs'.entries)
    (hcurrent : fs.current = fs'.current) (hrefuses : fs.refuses = fs'.refuses) : fs = fs' := by
  cases fs
  cases fs'
  cases hentries
  cases hcurrent
  cases hrefuses
  rfl

theorem bind_eq_ok_iff {α β : Type} {x : Except FileError α} {f : α → Except FileError β} {b : β} :
    (x >>= f) = .ok b ↔ ∃ a, x = .ok a ∧ f a = .ok b := by
  cases x with
  | error e => simp [bind, Except.bind]
  | ok a => simp [bind, Except.bind]

/-! ## File systems that grow -/

/-- Whether everything is still there, directories as directories. -/
structure Grows (fs fs' : FileSystem) : Prop where
  current : fs'.current = fs.current
  directory : ∀ place, fs.at? place = some .directory → fs'.at? place = some .directory
  isSome : ∀ place, (fs.at? place).isSome → (fs'.at? place).isSome

/-- Whether nothing has changed except that directories have been added. -/
structure Widens (fs fs' : FileSystem) : Prop where
  current : fs'.current = fs.current
  refuses : fs'.refuses = fs.refuses
  kept : ∀ place e, fs.at? place = some e → fs'.at? place = some e
  files : ∀ place content, fs'.at? place = some (.file content) →
    fs.at? place = some (.file content)

theorem Widens.refl (fs : FileSystem) : fs.Widens fs :=
  ⟨rfl, rfl, fun _ _ h => h, fun _ _ h => h⟩

theorem Widens.trans {a b c : FileSystem} (hab : a.Widens b) (hbc : b.Widens c) : a.Widens c :=
  ⟨hbc.current.trans hab.current, hbc.refuses.trans hab.refuses,
    fun place e h => hbc.kept place e (hab.kept place e h),
    fun place content h => hab.files place content (hbc.files place content h)⟩

theorem Widens.grows {fs fs' : FileSystem} (h : fs.Widens fs') : fs.Grows fs' where
  current := h.current
  directory place := h.kept place .directory
  isSome place hsome := by
    obtain ⟨e, he⟩ := Option.isSome_iff_exists.mp hsome
    rw [h.kept place e he]
    rfl

theorem Grows.trans {a b c : FileSystem} (hab : a.Grows b) (hbc : b.Grows c) : a.Grows c :=
  ⟨hbc.current.trans hab.current, fun place h => hbc.directory place (hab.directory place h),
    fun place h => hbc.isSome place (hab.isSome place h)⟩

/-- What could be walked along still can. -/
theorem Grows.walk {fs fs' : FileSystem} (h : fs.Grows fs') {place next : Location}
    {pieces : List String} (hwalk : fs.walk place pieces = .ok next) :
    fs'.walk place pieces = .ok next := by
  induction pieces generalizing place with
  | nil => exact hwalk
  | cons x xs ih =>
      obtain ⟨hdir, ⟨hidle, hnext⟩ | ⟨rfl, hnext⟩ | ⟨hname, hsome, hnext⟩⟩ := walk_cons_eq_ok hwalk
      · rw [walk_idle xs (h.directory place hdir) hidle, ih hnext]
      · rw [walk_up xs (h.directory place hdir), ih hnext]
      · rw [walk_name xs hname (h.directory place hdir) (h.isSome _ hsome), ih hnext]

theorem Grows.origin {fs fs' : FileSystem} (h : fs.Grows fs') (p : Path) :
    fs'.origin p = fs.origin p := by
  rw [FileSystem.origin, FileSystem.origin, h.current]

theorem Grows.locate {fs fs' : FileSystem} (h : fs.Grows fs') {p : Path} {place : Location}
    (hlocate : fs.locate p = .ok place) : fs'.locate p = .ok place := by
  rw [locate_eq] at hlocate ⊢
  split at hlocate
  · cases hlocate
  · rename_i hempty
    rw [if_neg hempty, h.origin]
    exact h.walk hlocate

theorem Grows.hasPath_eq_false {fs fs' : FileSystem} (h : fs.Grows fs') {p : Path}
    (hpath : fs'.hasPath p = false) : fs.hasPath p = false := by
  cases hlocate : fs.locate p with
  | error e => rw [hasPath, hlocate]; rfl
  | ok place =>
      rw [hasPath, h.locate hlocate] at hpath
      cases hpath

/-! ## Entries put into directories -/

theorem at?_concat (fs : FileSystem) (dir : Location) (name : String) :
    fs.at? (dir ++ [name]) = fs.entries[dir ++ [name]]? := by
  rw [at?, Entries.at?, if_neg (by simp)]

/-- Whether the only change is the entry at a place. -/
structure Puts (fs fs' : FileSystem) (place : Location) (e : Entry) : Prop where
  entries : fs'.entries = fs.entries.insert place e
  current : fs'.current = fs.current
  refuses : fs'.refuses = fs.refuses

theorem Puts.at? {fs fs' : FileSystem} {dir : Location} {name : String} {e : Entry}
    (h : fs.Puts fs' (dir ++ [name]) e) (place : Location) :
    fs'.at? place = if place = dir ++ [name] then some e else fs.at? place := by
  unfold FileSystem.at? Entries.at?
  rw [h.entries]
  by_cases hplace : place = []
  · simp [hplace]
  · rw [if_neg hplace, if_neg hplace, Std.ExtTreeMap.getElem?_insert]
    simp only [Std.LawfulEqCmp.compare_eq_iff_eq]
    by_cases hnew : place = dir ++ [name]
    · simp [hnew]
    · simp [hnew, Ne.symm hnew]

theorem Puts.unique {fs fs₁ fs₂ : FileSystem} {place : Location} {e : Entry}
    (h₁ : fs.Puts fs₁ place e) (h₂ : fs.Puts fs₂ place e) : fs₁ = fs₂ :=
  eq_of_entries (h₁.entries.trans h₂.entries.symm) (h₁.current.trans h₂.current.symm)
    (h₁.refuses.trans h₂.refuses.symm)

/-- Whether a file can be written in a directory under a name: it is not the name of a directory,
and nothing refuses it. -/
structure Accepts (fs : FileSystem) (dir : Location) (name : String) : Prop where
  directory : fs.at? dir = some .directory
  free : fs.at? (dir ++ [name]) ≠ some .directory
  allowed : fs.refuses (dir ++ [name]) = none

theorem putFile_eq_ok {fs fs' : FileSystem} {dir : Location} {name : String}
    {hname : isName name} {content : Bytes} (h : fs.putFile dir name hname content = .ok fs') :
    fs.Accepts dir name ∧ fs.Puts fs' (dir ++ [name]) (.file content) := by
  unfold putFile at h
  split at h
  · rename_i hdir
    split at h
    · cases h
    · rename_i hfree
      split at h
      · cases h
      · rename_i hallowed
        cases h
        exact ⟨⟨hdir, by rwa [at?_concat], hallowed⟩, ⟨rfl, rfl, rfl⟩⟩
  · cases h

theorem Accepts.putFile {fs : FileSystem} {dir : Location} {name : String}
    (h : fs.Accepts dir name) (hname : isName name) (content : Bytes) :
    ∃ fs', fs.putFile dir name hname content = .ok fs' := by
  have hfree := h.free
  rw [at?_concat] at hfree
  have hat : fs.entries.at? dir = some .directory := h.directory
  unfold FileSystem.putFile
  rw [dif_pos hat, dif_neg hfree, h.allowed]
  exact ⟨_, rfl⟩

theorem putDirectory_eq_ok {fs fs' : FileSystem} {dir : Location} {name : String}
    {hname : isName name} (h : fs.putDirectory dir name hname = .ok fs') :
    fs.at? (dir ++ [name]) = none ∧ fs.Puts fs' (dir ++ [name]) .directory := by
  unfold putDirectory at h
  split at h
  · split at h
    · cases h
    · rename_i hfree
      split at h
      · cases h
      · cases h
        exact ⟨by rwa [at?_concat], ⟨rfl, rfl, rfl⟩⟩
  · cases h

theorem Puts.widens {fs fs' : FileSystem} {dir : Location} {name : String}
    (h : fs.Puts fs' (dir ++ [name]) .directory) (hfree : fs.at? (dir ++ [name]) = none) :
    fs.Widens fs' := by
  refine ⟨h.current, h.refuses, fun place e he => ?_, fun place content hfile => ?_⟩
  · rw [h.at?, if_neg, he]
    rintro rfl
    rw [hfree] at he
    cases he
  · rw [h.at?] at hfile
    split at hfile
    · cases hfile
    · exact hfile

/-! ## Paths to a name in a directory -/

/-- Whether a path leads to a directory and then names something in it. -/
def Target (fs : FileSystem) (p : Path) (dir : Location) (name : String) : Prop :=
  ∃ front, p.steps = front ++ [name] ∧ fs.walk (fs.origin p) front = .ok dir ∧
    fs.at? dir = some .directory ∧ isName name = true

theorem target_of_file {fs : FileSystem} {p : Path} {place : Location} {content : Bytes}
    (hlocate : fs.locate p = .ok place) (hfile : fs.at? place = some (.file content)) :
    ∃ dir name, fs.Target p dir name ∧ place = dir ++ [name] := by
  rw [locate_eq] at hlocate
  split at hlocate
  · cases hlocate
  · rename_i hempty
    have hsteps : p.steps ≠ [] := by
      intro hnil
      unfold Path.steps at hnil
      split at hnil
      · rename_i habs
        obtain ⟨x, xs, hp⟩ := (Path.isAbsolute_iff p).mp habs
        simp [hp] at hnil
      · exact hempty (by simp [Path.isEmpty, hnil])
    obtain ⟨front, name, hfront⟩ : ∃ front name, p.steps = front ++ [name] :=
      ⟨_, _, (List.dropLast_append_getLast hsteps).symm⟩
    rw [hfront] at hlocate
    obtain ⟨dir, hwalk, hlast⟩ := walk_append_eq_ok hlocate
    obtain ⟨hdir, ⟨_, hnext⟩ | ⟨_, hnext⟩ | ⟨_, hsome, hnext⟩⟩ := walk_cons_eq_ok hlast
    · cases hnext
      rw [hdir] at hfile
      cases hfile
    · cases hnext
      rw [at?_dropLast (by simp [hdir])] at hfile
      cases hfile
    · cases hnext
      exact ⟨dir, name, ⟨front, hfront, hwalk, hdir, isName_of_at? hsome (by simp)⟩, rfl⟩

theorem Target.mono {fs fs' : FileSystem} {p : Path} {dir : Location} {name : String}
    (h : fs.Target p dir name) (hgrows : fs.Grows fs') : fs'.Target p dir name := by
  obtain ⟨front, hsteps, hwalk, hdir, hname⟩ := h
  refine ⟨front, hsteps, ?_, hgrows.directory dir hdir, hname⟩
  rw [hgrows.origin]
  exact hgrows.walk hwalk

theorem Target.isEmpty {fs : FileSystem} {p : Path} {dir : Location} {name : String}
    (h : fs.Target p dir name) : p.isEmpty = false := by
  obtain ⟨front, hsteps, _, _, hname⟩ := h
  cases hempty : p.isEmpty with
  | false => rfl
  | true =>
      simp only [Path.isEmpty, Bool.or_eq_true, decide_eq_true_eq] at hempty
      rcases hempty with hpieces | hpieces
      · simp [Path.steps, Path.isAbsolute, hpieces] at hsteps
      · have hlast : [""] = front ++ [name] := by
          simpa [Path.steps, Path.isAbsolute, hpieces] using hsteps
        have hempty := congrArg List.getLast? hlast
        rw [List.getLast?_concat] at hempty
        cases hempty
        exact absurd rfl (isName_spec hname).1

theorem Target.locate {fs : FileSystem} {p : Path} {dir : Location} {name : String}
    (h : fs.Target p dir name) (hsome : (fs.at? (dir ++ [name])).isSome) :
    fs.locate p = .ok (dir ++ [name]) := by
  have hempty := h.isEmpty
  obtain ⟨front, hsteps, hwalk, hdir, hname⟩ := h
  rw [locate_eq, hempty, if_neg (by simp), hsteps, walk_append hwalk,
    walk_name [] (pieceName?_of_isName hname) hdir hsome]
  rfl

theorem Target.pieces {fs : FileSystem} {p : Path} {dir : Location} {name : String}
    (h : fs.Target p dir name) : ∃ before, p.pieces = before ++ [name] := by
  obtain ⟨front, hsteps, _⟩ := h
  unfold Path.steps at hsteps
  split at hsteps
  · rename_i habs
    obtain ⟨x, xs, hp⟩ := (Path.isAbsolute_iff p).mp habs
    rw [hp, List.tail_cons] at hsteps
    exact ⟨"" :: front, by rw [hp, hsteps, List.cons_append]⟩
  · exact ⟨front, hsteps⟩

/-- What is not there is led to by no path that names it. -/
theorem Target.hasPath_eq_false {fs : FileSystem} {p : Path} {dir : Location} {name : String}
    (h : fs.Target p dir name) (hnone : fs.at? (dir ++ [name]) = none) : fs.hasPath p = false := by
  have hempty := h.isEmpty
  obtain ⟨front, hsteps, hwalk, hdir, hname⟩ := h
  obtain ⟨hne, hdot, hup⟩ := isName_spec hname
  rw [hasPath, locate_eq, hempty, if_neg (by simp), hsteps, walk_append hwalk, walk,
    if_neg (by simp [hdir]), if_neg (not_or.mpr ⟨hne, hdot⟩), if_neg hup, hnone]
  rfl

/-! ## Making directories -/

theorem steps_of_pieces {p : Path} {before : List String} {piece : String}
    (h : p.pieces = before ++ [piece]) :
    p.steps = (if p.isAbsolute then before.tail else before) ++ [piece] := by
  unfold Path.steps
  split
  · rename_i habs
    obtain ⟨x, xs, hp⟩ := (Path.isAbsolute_iff p).mp habs
    cases before with
    | nil => simp [h] at hp
    | cons b before => rw [h, List.cons_append, List.tail_cons, List.tail_cons]
  · exact h

theorem locateParent_of_pieces {fs : FileSystem} {p : Path} {before : List String}
    {piece : String} (h : p.pieces = before ++ [piece]) :
    fs.locateParent p = (do
      let dir ← fs.walk (fs.origin p) (if p.isAbsolute then before.tail else before)
      if fs.at? dir = some .directory then return (dir, piece) else .error .notDirectory) := by
  have hreverse : p.pieces.reverse = piece :: before.reverse := by simp [h]
  unfold locateParent origin
  simp only [hreverse, List.isEmpty_reverse, List.reverse_reverse]
  cases before with
  | nil =>
      rw [Path.isAbsolute_eq_false (p := p) (by simp [h])]
      rfl
  | cons b before =>
      cases p.isAbsolute with
      | false => rfl
      | true => rfl

/-- The last step of a path is looked for in the directory that the steps before lead to. -/
theorem locateParent_eq_ok_iff {fs : FileSystem} {p : Path} {dir : Location} {piece : String} :
    fs.locateParent p = .ok (dir, piece) ↔
      ∃ front, p.steps = front ++ [piece] ∧ fs.walk (fs.origin p) front = .ok dir ∧
        fs.at? dir = some .directory := by
  rcases List.eq_nil_or_concat' p.pieces with hnil | ⟨before, last, hpieces⟩
  · constructor
    · intro h
      simp [locateParent, hnil] at h
    · rintro ⟨front, hsteps, _⟩
      simp [Path.steps, Path.isAbsolute, hnil] at hsteps
  · rw [locateParent_of_pieces hpieces, steps_of_pieces hpieces]
    constructor
    · intro h
      obtain ⟨found, hwalk, h⟩ := bind_eq_ok_iff.mp h
      split at h
      · rename_i hdir
        cases h
        exact ⟨_, rfl, hwalk, hdir⟩
      · cases h
    · rintro ⟨front, hsteps, hwalk, hdir⟩
      obtain ⟨rfl, hlast⟩ := List.append_inj' hsteps rfl
      cases hlast
      exact bind_eq_ok_iff.mpr ⟨dir, hwalk, if_pos hdir⟩

/-- A walk gets where it gets without the pieces at its end that lead nowhere. -/
theorem walk_rdropWhile {fs : FileSystem} {place next : Location} {pieces : List String}
    {idle : String → Bool} (hidle : ∀ x, idle x = true → x = "" ∨ x = ".")
    (h : fs.walk place pieces = .ok next) :
    fs.walk place (pieces.rdropWhile idle) = .ok next := by
  rw [← List.rdropWhile_append_rtakeWhile (p := idle) (l := pieces)] at h
  obtain ⟨mid, hwalk, hrest⟩ := walk_append_eq_ok h
  rw [eq_of_walk_idle hrest fun x hx => hidle x (List.mem_rtakeWhile_imp hx)]
  exact hwalk

theorem withoutSlash_steps {p : Path} (h : (withoutSlash p).pieces ≠ []) :
    (withoutSlash p).isAbsolute = p.isAbsolute ∧
      (withoutSlash p).steps = p.steps.rdropWhile (· = "") := by
  have hpieces : (withoutSlash p).pieces = p.pieces.rdropWhile (· = "") := rfl
  cases habs : p.isAbsolute with
  | false =>
      have hq : (withoutSlash p).isAbsolute = false := by
        refine Path.isAbsolute_eq_false fun y ys hcons => ?_
        obtain ⟨rest, hrest⟩ := List.rdropWhile_prefix (· = "") (l := p.pieces)
        rw [← hpieces, hcons] at hrest
        rw [(Path.isAbsolute_iff p).mpr ⟨y, ys ++ rest, hrest.symm⟩] at habs
        cases habs
      refine ⟨hq, ?_⟩
      rw [Path.steps, Path.steps, hq, habs]
      exact hpieces
  | true =>
      obtain ⟨x, xs, hp⟩ := (Path.isAbsolute_iff p).mp habs
      have hcons : (withoutSlash p).pieces = "" :: (x :: xs).rdropWhile (· = "") := by
        rw [hpieces, hp] at h ⊢
        rw [List.rdropWhile, List.reverse_cons, List.dropWhile_append] at h ⊢
        split
        · rename_i hnil
          rw [if_pos hnil] at h
          exact absurd rfl h
        · rw [List.reverse_append]
          rfl
      have hrest : (x :: xs).rdropWhile (· = "") ≠ [] := by
        intro hnil
        have hlast := List.rdropWhile_last_not (· = "") p.pieces (by rwa [← hpieces])
        simp [← hpieces, hcons, hnil] at hlast
      obtain ⟨y, ys, hy⟩ := List.exists_cons_of_ne_nil hrest
      have hq : (withoutSlash p).isAbsolute = true :=
        (Path.isAbsolute_iff _).mpr ⟨y, ys, by rw [hcons, hy]⟩
      refine ⟨hq, ?_⟩
      rw [Path.steps, Path.steps, hq, habs, if_pos rfl, if_pos rfl, hcons, hp]
      rfl

/-- What exists already is not made anew. -/
theorem makeDirectory_of_locate {fs : FileSystem} {p : Path} {place : Location}
    (hlocate : fs.locate p = .ok place) : fs.makeDirectory p = .error .exists := by
  rw [locate_eq] at hlocate
  split at hlocate
  · cases hlocate
  · rename_i hempty
    unfold makeDirectory
    rw [if_neg hempty]
    split
    · rfl
    · rename_i hpieces
      obtain ⟨habs, hsteps⟩ := withoutSlash_steps hpieces
      have hwalk : fs.walk (fs.origin (withoutSlash p)) (withoutSlash p).steps = .ok place := by
        rw [hsteps, origin, habs]
        exact walk_rdropWhile (fun x hx => .inl (by simpa using hx)) hlocate
      obtain ⟨before, piece, hbefore⟩ : ∃ before piece,
          (withoutSlash p).pieces = before ++ [piece] :=
        ⟨_, _, (List.dropLast_append_getLast hpieces).symm⟩
      have hfront := steps_of_pieces hbefore
      rw [hfront] at hwalk
      obtain ⟨mid, hmid, hlast⟩ := walk_append_eq_ok hwalk
      obtain ⟨hmidDir, hcases⟩ := walk_cons_eq_ok hlast
      rw [locateParent_eq_ok_iff.mpr ⟨_, hfront, hmid, hmidDir⟩]
      simp only [bind, Except.bind]
      split
      · rename_i hname
        obtain ⟨hempty, hdot, hup⟩ := isName_spec hname
        rcases hcases with ⟨hidle, _⟩ | ⟨hpiece, _⟩ | ⟨_, hsome, _⟩
        · exact absurd hidle (not_or.mpr ⟨hempty, hdot⟩)
        · exact absurd hpiece hup
        · obtain ⟨e, he⟩ := Option.isSome_iff_exists.mp hsome
          rw [at?_concat] at he
          have hmidAt : fs.entries.at? mid = some .directory := hmidDir
          unfold putDirectory
          rw [dif_pos hmidAt]
          split
          · rfl
          · rename_i hnone
            rw [he] at hnone
            cases hnone
      · rfl

theorem isDirectory_of_locate {fs : FileSystem} {p : Path} {dir : Location}
    (hlocate : fs.locate p = .ok dir) (hdir : fs.at? dir = some .directory) :
    fs.isDirectory p = true := by
  rw [isDirectory, find?, hlocate]
  exact decide_eq_true hdir

theorem createDirectory_of_directory {fs : FileSystem} {p : Path} {dir : Location}
    (hlocate : fs.locate p = .ok dir) (hdir : fs.at? dir = some .directory) :
    fs.createDirectory p = (.ok (), fs) := by
  rw [createDirectory, makeDirectories, makeDirectory_of_locate hlocate,
    isDirectory_of_locate hlocate hdir]
  split
  · rfl
  · rfl

theorem createDirectory_of_isEmpty (fs : FileSystem) {p : Path} (h : p.isEmpty = true) :
    fs.createDirectory p = (.ok (), fs) := by
  rw [createDirectory, makeDirectories, if_pos h]

/-- A directory is made where a path names something in a directory that is not there yet. -/
theorem makeDirectory_eq_ok {fs fs' : FileSystem} {p : Path}
    (h : fs.makeDirectory p = .ok fs') :
    ∃ dir name, fs.Target (withoutSlash p) dir name ∧ fs.at? (dir ++ [name]) = none ∧
      fs.Puts fs' (dir ++ [name]) .directory := by
  unfold makeDirectory at h
  dsimp only at h
  split at h
  · cases h
  · split at h
    · cases h
    · obtain ⟨⟨dir, name⟩, hparent, h⟩ := bind_eq_ok_iff.mp h
      dsimp only at h
      split at h
      · rename_i hname
        obtain ⟨front, hsteps, hwalk, hdir⟩ := locateParent_eq_ok_iff.mp hparent
        obtain ⟨hfree, hputs⟩ := putDirectory_eq_ok h
        exact ⟨dir, name, ⟨front, hsteps, hwalk, hdir, hname⟩, hfree, hputs⟩
      · cases h

/-- What making directories for a path comes to: only directories have been added, each for a piece
of the path up to which it led nowhere. -/
structure Paves (fs fs' : FileSystem) (p : Path) : Prop where
  widens : fs.Widens fs'
  along : ∀ place, fs'.at? place ≠ fs.at? place →
    ∃ before name after, p.pieces = before ++ name :: after ∧ place.getLast? = some name ∧
      fs.hasPath ⟨before ++ [name]⟩ = false

namespace Paves

variable {a b c : FileSystem} {p q : Path}

theorem refl (fs : FileSystem) (p : Path) : fs.Paves fs p :=
  ⟨.refl fs, fun _ hne => absurd rfl hne⟩

theorem trans (hab : a.Paves b p) (hbc : b.Paves c p) : a.Paves c p := by
  refine ⟨hab.widens.trans hbc.widens, fun place hne => ?_⟩
  by_cases hlast : c.at? place = b.at? place
  · exact hab.along place (hlast ▸ hne)
  · obtain ⟨before, name, after, hpieces, hname, hpath⟩ := hbc.along place hlast
    exact ⟨before, name, after, hpieces, hname, hab.widens.grows.hasPath_eq_false hpath⟩

/-- What is added has a name. -/
theorem isName_of_ne (h : a.Paves b p) {place : Location} (hne : b.at? place ≠ a.at? place)
    {name : String} (hname : place.getLast? = some name) : isName name = true := by
  have hsome : (b.at? place).isSome := by
    rw [Option.isSome_iff_ne_none]
    intro hnone
    cases hbefore : a.at? place with
    | none => exact hne (hnone.trans hbefore.symm)
    | some e => simp [h.widens.kept place e hbefore] at hnone
  exact isName_of_at? hsome (List.mem_of_getLast? hname)

/-- The pieces of the parent are pieces of the path. -/
theorem of_parent? (hparent : p.parent? = some q) (h : a.Paves b q) : a.Paves b p := by
  refine ⟨h.widens, fun place hne => ?_⟩
  obtain ⟨before, name, after, hpieces, hname, hpath⟩ := h.along place hne
  rcases Path.pieces_of_parent? hparent with ⟨rest, hrest⟩ | hslash
  · exact ⟨before, name, after ++ rest, by rw [← hrest, hpieces]; simp, hname, hpath⟩
  · have hempty := hslash name (by simp [hpieces])
    exact absurd hempty (isName_spec (h.isName_of_ne hne hname)).1

end Paves

theorem withoutSlash_isPrefix (p : Path) : (withoutSlash p).pieces <+: p.pieces :=
  List.rdropWhile_prefix (· = "") p.pieces

theorem paves_of_makeDirectory {fs fs' : FileSystem} {p : Path}
    (h : fs.makeDirectory p = .ok fs') : fs.Paves fs' p := by
  obtain ⟨dir, name, htarget, hfree, hputs⟩ := makeDirectory_eq_ok h
  refine ⟨hputs.widens hfree, fun place hne => ?_⟩
  have hplace : place = dir ++ [name] := by
    by_contra hother
    exact hne (by rw [hputs.at?, if_neg hother])
  obtain ⟨before, hpieces⟩ := htarget.pieces
  obtain ⟨rest, hrest⟩ := withoutSlash_isPrefix p
  have hself : Path.mk (before ++ [name]) = withoutSlash p := congrArg Path.mk hpieces.symm
  refine ⟨before, name, rest, ?_, by rw [hplace, List.getLast?_concat], ?_⟩
  · rw [← hrest, hpieces, List.append_assoc, List.singleton_append]
  · rw [hself, htarget.hasPath_eq_false hfree]

/-- Directories are made for the pieces of the path alone, also where not all of them can be. -/
theorem paves_makeDirectories (fs : FileSystem) (fuel : Nat) (p : Path) :
    fs.Paves (fs.makeDirectories fuel p).2 p := by
  induction fuel generalizing p with
  | zero => exact .refl fs p
  | succ fuel ih =>
      rw [makeDirectories]
      split
      · exact .refl fs p
      · split
        · rename_i hmake
          exact paves_of_makeDirectory hmake
        · split
          · exact .refl fs p
          · rename_i parent hparent
            -- The directories above come first, by the induction hypothesis.
            have habove := (ih parent).of_parent? hparent
            split
            · rename_i hmade
              rwa [hmade] at habove
            · rename_i hmade
              rw [hmade] at habove
              split
              · rename_i hmake
                exact habove.trans (paves_of_makeDirectory hmake)
              · exact habove
        · exact .refl fs p

theorem paves_createDirectory (fs : FileSystem) (p : Path) :
    fs.Paves (fs.createDirectory p).2 p := fs.paves_makeDirectories _ p

/-! ## Writing files -/

theorem Target.withoutSlash {fs : FileSystem} {p : Path} {dir : Location} {name : String}
    (h : fs.Target p dir name) : withoutSlash p = p := by
  obtain ⟨before, hpieces⟩ := h.pieces
  obtain ⟨_, _, _, _, hname⟩ := h
  have hlast : ¬ decide (name = "") = true := by simpa using (isName_spec hname).1
  have hself : p.pieces.rdropWhile (· = "") = p.pieces := by
    rw [hpieces]
    exact List.rdropWhile_concat_neg _ _ name hlast
  exact congrArg Path.mk hself

/-- A file is written where a path names something in a directory that accepts it. -/
theorem write_eq_ok_iff {fs fs' : FileSystem} {p : Path} {content : Bytes} :
    fs.write p content = .ok fs' ↔
      ∃ dir name, fs.Target p dir name ∧ fs.Accepts dir name ∧
        fs.Puts fs' (dir ++ [name]) (.file content) := by
  constructor
  · intro h
    unfold write at h
    dsimp only at h
    split at h
    · cases h
    · split at h
      · cases h
      · obtain ⟨⟨dir, name⟩, hparent, h⟩ := bind_eq_ok_iff.mp h
        dsimp only at h
        split at h
        · rename_i hname
          rw [hname.1] at hparent
          obtain ⟨front, hsteps, hwalk, hdir⟩ := locateParent_eq_ok_iff.mp hparent
          obtain ⟨haccepts, hputs⟩ := putFile_eq_ok h
          exact ⟨dir, name, ⟨front, hsteps, hwalk, hdir, hname.2⟩, haccepts, hputs⟩
        · cases h
  · rintro ⟨dir, name, htarget, haccepts, hputs⟩
    obtain ⟨before, hpieces⟩ := htarget.pieces
    have hself := htarget.withoutSlash
    have hempty := htarget.isEmpty
    obtain ⟨front, hsteps, hwalk, hdir, hname⟩ := htarget
    obtain ⟨made, hmade⟩ := haccepts.putFile hname content
    have heq : made = fs' := (putFile_eq_ok hmade).2.unique hputs
    have hparent : fs.locateParent (FileSystem.withoutSlash p) = .ok (dir, name) := by
      rw [hself]
      exact locateParent_eq_ok_iff.mpr ⟨front, hsteps, hwalk, hdir⟩
    have hne : (FileSystem.withoutSlash p).pieces ≠ [] := by simp [hself, hpieces]
    unfold write
    dsimp only
    rw [hempty, if_neg (by simp), if_neg hne]
    refine bind_eq_ok_iff.mpr ⟨(dir, name), hparent, ?_⟩
    dsimp only
    rw [dif_pos ⟨hself, hname⟩, hmade, heq]

theorem walk_trimEnd {fs : FileSystem} {place next : Location} {pieces : List String}
    (h : fs.walk place pieces = .ok next) : fs.walk place (Path.trimEnd pieces) = .ok next :=
  walk_rdropWhile (fun x hx => by simpa using hx) h

theorem trimEnd_concat {name : String} (h : isName name = true) (front : List String) :
    Path.trimEnd (front ++ [name]) = front ++ [name] := by
  obtain ⟨hempty, hdot, _⟩ := isName_spec h
  exact List.rdropWhile_concat_neg _ _ name (by simp [hempty, hdot])

theorem trimEnd_spec (pieces : List String) :
    Path.trimEnd pieces <+: pieces ∧ (Path.trimEnd pieces).getLast? ≠ some "" := by
  refine ⟨List.rdropWhile_prefix _ _, fun hlast => ?_⟩
  by_cases hne : Path.trimEnd pieces = []
  · simp [hne] at hlast
  · have hnot := List.rdropWhile_last_not (fun s => s = "" || s = ".") pieces hne
    rw [List.getLast?_eq_some_getLast hne] at hlast
    exact hnot (by simp [show (pieces.rdropWhile fun s => s = "" || s = ".").getLast hne = "" from
      Option.some.inj hlast])

/-- A walk along pieces is the way to the path of the pieces, unless it is written with nothing. -/
theorem locate_of_walk {fs : FileSystem} {pieces : List String} {place : Location}
    (hrel : Path.isAbsolute ⟨pieces⟩ = false) (hempty : Path.isEmpty ⟨pieces⟩ = false)
    (h : fs.walk fs.current pieces = .ok place) : fs.locate ⟨pieces⟩ = .ok place := by
  rw [locate, hempty, hrel]
  exact h

theorem relative_trimEnd {front : List String} {name : String}
    (hslash : ∀ x xs, front ++ [name] ≠ "" :: x :: xs) (hne : Path.trimEnd front ≠ []) :
    Path.isAbsolute ⟨Path.trimEnd front⟩ = false ∧
      Path.isEmpty ⟨Path.trimEnd front⟩ = false := by
  obtain ⟨⟨rest, hrest⟩, hlast⟩ := trimEnd_spec front
  constructor
  · refine Path.isAbsolute_eq_false fun y ys hcons => ?_
    have hcons : Path.trimEnd front = "" :: y :: ys := hcons
    rw [← hrest, hcons] at hslash
    exact hslash y (ys ++ rest ++ [name]) rfl
  · cases hempty : Path.isEmpty ⟨Path.trimEnd front⟩ with
    | false => rfl
    | true =>
        simp only [Path.isEmpty, Bool.or_eq_true, decide_eq_true_eq] at hempty
        rcases hempty with hnil | hone
        · exact absurd hnil hne
        · rw [hone] at hlast
          exact absurd rfl hlast

/-- The directory of a named path is where its parent leads. -/
theorem Target.parent {fs : FileSystem} {p parent : Path} {dir : Location} {name : String}
    (h : fs.Target p dir name) (hparent : p.parent? = some parent) :
    parent.isEmpty = true ∨ fs.locate parent = .ok dir := by
  obtain ⟨front, hsteps, hwalk, hdir, hname⟩ := h
  unfold Path.parent? at hparent
  split at hparent
  case h_1 x xs hp =>
    -- Where nothing is left in front of the name, the parent is the root.
    have habs : p.isAbsolute = true := (Path.isAbsolute_iff p).mpr ⟨x, xs, hp⟩
    have hxs : x :: xs = front ++ [name] := by
      rw [← hsteps, Path.steps, habs, hp]
      rfl
    rw [origin, habs, if_pos rfl] at hwalk
    have htrimmed := walk_trimEnd hwalk
    rw [hxs, trimEnd_concat hname] at hparent
    split at hparent
    · cases hparent
    · rw [List.dropLast_concat] at hparent
      split at hparent
      · rename_i hnil
        cases hparent
        rw [hnil] at htrimmed
        cases htrimmed
        exact .inr rfl
      · rename_i hzs
        cases hparent
        obtain ⟨z, zs, hcons⟩ := List.exists_cons_of_ne_nil hzs
        right
        rw [locate_of_isAbsolute ((Path.isAbsolute_iff _).mpr ⟨z, zs, by rw [hcons]⟩)]
        exact htrimmed
  case h_2 xs hp =>
    -- The dot at the front stays, as a step that leads nowhere.
    have habs : p.isAbsolute = false := by simp [Path.isAbsolute, hp]
    have hxs : "." :: xs = front ++ [name] := by
      rw [← hsteps, Path.steps, habs, hp]
      rfl
    obtain ⟨front, rfl⟩ : ∃ rest, front = "." :: rest := by
      cases front with
      | nil =>
          cases hxs
          exact absurd rfl (isName_spec hname).2.1
      | cons x rest => exact ⟨rest, by rw [(List.cons.inj hxs).1]⟩
    rw [List.cons_append] at hxs
    rw [(List.cons.inj hxs).2, trimEnd_concat hname] at hparent
    split at hparent
    · rename_i hnil
      simp at hnil
    · cases hparent
      rw [origin, habs, if_neg (by simp)] at hwalk
      obtain ⟨hcurrent, _⟩ := walk_cons_eq_ok hwalk
      rw [walk_idle _ hcurrent (.inr rfl)] at hwalk
      refine .inr (locate_of_walk rfl rfl ?_)
      rw [walk_idle _ hcurrent (.inr rfl), List.dropLast_concat]
      exact walk_trimEnd hwalk
  case h_3 hslash hdot =>
    -- What is left in front of the name must not begin like an absolute path.
    have habs : p.isAbsolute = false := Path.isAbsolute_eq_false hslash
    have hpieces : p.pieces = front ++ [name] := by
      rw [← hsteps, Path.steps, habs]
      rfl
    rw [origin, habs, if_neg (by simp)] at hwalk
    rw [hpieces] at hslash
    rw [hpieces, trimEnd_concat hname] at hparent
    split at hparent
    · cases hparent
    · rw [List.dropLast_concat] at hparent
      split at hparent
      · cases hparent
        exact .inl rfl
      · rename_i hne
        cases hparent
        obtain ⟨hrelative, hempty⟩ := relative_trimEnd hslash hne
        exact .inr (locate_of_walk hrelative hempty (walk_trimEnd hwalk))

theorem read_eq_ok_iff {fs : FileSystem} {p : Path} {content : Bytes} :
    fs.read p = .ok content ↔
      ∃ place, fs.locate p = .ok place ∧ fs.at? place = some (.file content) := by
  unfold read
  constructor
  · intro h
    obtain ⟨place, hlocate, h⟩ := bind_eq_ok_iff.mp h
    split at h
    · rename_i hfile
      cases h
      exact ⟨place, hlocate, hfile⟩
    · cases h
  · rintro ⟨place, hlocate, hfile⟩
    refine bind_eq_ok_iff.mpr ⟨place, hlocate, ?_⟩
    rw [hfile]
    rfl

theorem Widens.read {fs fs' : FileSystem} (h : fs.Widens fs') {p : Path} {content : Bytes}
    (hread : fs.read p = .ok content) : fs'.read p = .ok content := by
  obtain ⟨place, hlocate, hfile⟩ := read_eq_ok_iff.mp hread
  exact read_eq_ok_iff.mpr ⟨place, h.grows.locate hlocate, h.kept place _ hfile⟩

theorem Puts.grows {fs fs' : FileSystem} {dir : Location} {name : String} {content : Bytes}
    (h : fs.Puts fs' (dir ++ [name]) (.file content)) (haccepts : fs.Accepts dir name) :
    fs.Grows fs' := by
  refine ⟨h.current, fun place hdir => ?_, fun place hsome => ?_⟩
  · rw [h.at?, if_neg, hdir]
    rintro rfl
    exact haccepts.free hdir
  · rw [h.at?]
    split
    · rfl
    · exact hsome

theorem grows_of_write {fs fs' : FileSystem} {p : Path} {content : Bytes}
    (h : fs.write p content = .ok fs') : fs.Grows fs' := by
  obtain ⟨dir, name, _, haccepts, hputs⟩ := write_eq_ok_iff.mp h
  exact hputs.grows haccepts

/-- Whether nothing refuses to have a file written where a path leads. -/
def Allows (fs : FileSystem) (p : Path) : Prop :=
  ∀ place, fs.locate p = .ok place → fs.refuses place = none

/-- A file that has been written is found where its path leads, and can be written again. -/
theorem locate_of_write {fs fs' : FileSystem} {p : Path} {content : Bytes}
    (h : fs.write p content = .ok fs') :
    ∃ place, fs'.locate p = .ok place ∧ fs'.at? place = some (.file content) ∧
      fs'.refuses place = none := by
  obtain ⟨dir, name, htarget, haccepts, hputs⟩ := write_eq_ok_iff.mp h
  have hfile : fs'.at? (dir ++ [name]) = some (.file content) := by rw [hputs.at?, if_pos rfl]
  refine ⟨dir ++ [name], (htarget.mono (hputs.grows haccepts)).locate (by simp [hfile]), hfile, ?_⟩
  rw [hputs.refuses, haccepts.allowed]

theorem changed_of_write {fs fs' : FileSystem} {p : Path} {content : Bytes}
    (h : fs.write p content = .ok fs') {place : Location} (hne : fs'.at? place ≠ fs.at? place) :
    ∃ before name, p.pieces = before ++ [name] ∧ place.getLast? = some name := by
  obtain ⟨dir, name, htarget, _, hputs⟩ := write_eq_ok_iff.mp h
  obtain ⟨before, hpieces⟩ := htarget.pieces
  refine ⟨before, name, hpieces, ?_⟩
  by_cases hplace : place = dir ++ [name]
  · rw [hplace, List.getLast?_concat]
  · rw [hputs.at?, if_neg hplace] at hne
    exact absurd rfl hne

theorem read_of_write {fs fs' : FileSystem} {p : Path} {content : Bytes}
    (h : fs.write p content = .ok fs') : fs'.read p = .ok content := by
  obtain ⟨place, hlocate, hfile, _⟩ := locate_of_write h
  exact read_eq_ok_iff.mpr ⟨place, hlocate, hfile⟩

theorem allows_of_write {fs fs' : FileSystem} {p : Path} {content : Bytes}
    (h : fs.write p content = .ok fs') : fs'.Allows p := by
  obtain ⟨place, hlocate, _, hallowed⟩ := locate_of_write h
  intro other hother
  rw [hlocate] at hother
  cases hother
  exact hallowed

/-! ## Writing files in directories that may be missing -/

/-- The file system with the directory of a path, made as far as it is missing. -/
def createParent (fs : FileSystem) (p : Path) : Except FileError Unit × FileSystem :=
  p.parent?.elim (.ok (), fs) fs.createDirectory

theorem paves_createParent (fs : FileSystem) (p : Path) : fs.Paves (fs.createParent p).2 p := by
  unfold createParent
  cases hparent : p.parent? with
  | none => exact .refl fs p
  | some parent => exact (fs.paves_createDirectory parent).of_parent? hparent

theorem createParent_of_target {fs : FileSystem} {p : Path} {dir : Location} {name : String}
    (h : fs.Target p dir name) : fs.createParent p = (.ok (), fs) := by
  unfold createParent
  cases hparent : p.parent? with
  | none => rfl
  | some parent =>
      rcases h.parent hparent with hempty | hlocate
      · exact createDirectory_of_isEmpty fs hempty
      · obtain ⟨_, _, _, hdir, _⟩ := h
        exact createDirectory_of_directory hlocate hdir

theorem exists_write {fs : FileSystem} {p : Path} {dir : Location} {name : String}
    (h : fs.Target p dir name) (haccepts : fs.Accepts dir name) (content : Bytes) :
    ∃ fs', fs.write p content = .ok fs' := by
  obtain ⟨_, _, _, _, hname⟩ := id h
  obtain ⟨fs', hput⟩ := haccepts.putFile hname content
  exact ⟨fs', write_eq_ok_iff.mpr ⟨dir, name, h, haccepts, (putFile_eq_ok hput).2⟩⟩

theorem target_of_read {fs : FileSystem} {p : Path} {old : Bytes} (h : fs.read p = .ok old) :
    ∃ dir name, fs.Target p dir name ∧ fs.locate p = .ok (dir ++ [name]) ∧
      fs.at? (dir ++ [name]) = some (.file old) := by
  obtain ⟨place, hlocate, hfile⟩ := read_eq_ok_iff.mp h
  obtain ⟨dir, name, htarget, rfl⟩ := target_of_file hlocate hfile
  exact ⟨dir, name, htarget, hlocate, hfile⟩

theorem accepts_of_file {fs : FileSystem} {p : Path} {dir : Location} {name : String}
    {old : Bytes} (hlocate : fs.locate p = .ok (dir ++ [name]))
    (hfile : fs.at? (dir ++ [name]) = some (.file old)) (hallows : fs.Allows p) :
    fs.Accepts dir name :=
  ⟨at?_eq_directory_of_append (List.cons_ne_nil name []) (by simp [hfile]), by simp [hfile],
    hallows _ hlocate⟩

/-- A file that can be read can be written unless it is refused, and no directory is made for it. -/
theorem write_of_read {fs : FileSystem} {p : Path} {old : Bytes} (h : fs.read p = .ok old)
    (hallows : fs.Allows p) (content : Bytes) :
    fs.createParent p = (.ok (), fs) ∧ ∃ fs', fs.write p content = .ok fs' := by
  obtain ⟨dir, name, htarget, hlocate, hfile⟩ := target_of_read h
  exact ⟨createParent_of_target htarget,
    exists_write htarget (accepts_of_file hlocate hfile hallows) content⟩

theorem write_content {fs fs' : FileSystem} {p : Path} {content : Bytes}
    (h : fs.write p content = .ok fs') (other : Bytes) : ∃ fs'', fs.write p other = .ok fs'' := by
  obtain ⟨dir, name, htarget, haccepts, _⟩ := write_eq_ok_iff.mp h
  exact exists_write htarget haccepts other

theorem write_of_read_self {fs : FileSystem} {p : Path} {content : Bytes}
    (h : fs.read p = .ok content) (hallows : fs.Allows p) : fs.write p content = .ok fs := by
  obtain ⟨dir, name, htarget, hlocate, hfile⟩ := target_of_read h
  refine write_eq_ok_iff.mpr
    ⟨dir, name, htarget, accepts_of_file hlocate hfile hallows, ?_, rfl, rfl⟩
  apply Std.ExtTreeMap.ext_getElem?
  intro place
  rw [Std.ExtTreeMap.getElem?_insert]
  simp only [Std.LawfulEqCmp.compare_eq_iff_eq]
  split
  · rename_i hplace
    rw [at?_concat] at hfile
    rw [← hplace, hfile]
  · rfl

/-- Whether the files of a file system are the same as before, each with the same content. -/
def SameFiles (fs fs' : FileSystem) : Prop :=
  ∀ place content, fs'.at? place = some (.file content) ↔ fs.at? place = some (.file content)

theorem Widens.sameFiles {fs fs' : FileSystem} (h : fs.Widens fs') : fs.SameFiles fs' :=
  fun place content => ⟨h.files place content, h.kept place (.file content)⟩

end FileSystem
end RuleBuild
