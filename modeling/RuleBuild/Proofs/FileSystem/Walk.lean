import Mathlib.Data.List.Induction
import RuleBuild.FileSystem
import RuleBuild.Proofs.Path.Below

/-!
# Where paths lead

What lies below a place lies in directories all the way down, so a path without a step up leads to
the place of its names, provided that place exists.
-/
namespace RuleBuild

/-- The pieces of a path that are walked along. -/
def Path.steps (p : Path) : List String := if p.isAbsolute then p.pieces.tail else p.pieces

theorem Path.isAbsolute_eq_false {p : Path} (h : ∀ x xs, p.pieces ≠ "" :: x :: xs) :
    p.isAbsolute = false := by
  rw [← Bool.not_eq_true, isAbsolute_iff]
  rintro ⟨x, xs, hp⟩
  exact h x xs hp

namespace FileSystem

theorem mem_entries_of_at? {fs : FileSystem} {place : Location} (hne : place ≠ [])
    (h : (fs.at? place).isSome) : place ∈ fs.entries := by
  rw [at?, Entries.at?, if_neg hne] at h
  exact Std.ExtTreeMap.mem_iff_isSome_getElem?.mpr h

/-- What has something below it is a directory. -/
theorem at?_eq_directory_of_append {fs : FileSystem} {place rest : Location} (hne : rest ≠ [])
    (h : (fs.at? (place ++ rest)).isSome) : fs.at? place = some .directory := by
  induction rest using List.reverseRecOn with
  | nil => exact absurd rfl hne
  | append_singleton rest name ih =>
      rw [← List.append_assoc] at h
      have hdir : fs.at? (place ++ rest) = some .directory :=
        fs.closed _ name (mem_entries_of_at? (by simp) h)
      cases rest with
      | nil => simpa using hdir
      | cons x xs => exact ih (by simp) (by simp [hdir])

theorem at?_dropLast {fs : FileSystem} {place : Location} (h : (fs.at? place).isSome) :
    fs.at? place.dropLast = some .directory := by
  by_cases hplace : place = []
  · rw [hplace]
    rfl
  · rw [← List.dropLast_append_getLast hplace] at h
    exact at?_eq_directory_of_append (by simp) h

/-- Every part of an existing place is a name. -/
theorem isName_of_at? {fs : FileSystem} {place : Location} (h : (fs.at? place).isSome)
    {name : String} (hmem : name ∈ place) : isName name = true :=
  fs.named place (mem_entries_of_at? (List.ne_nil_of_mem hmem) h) name hmem

theorem isName_spec {name : String} (h : isName name = true) :
    name ≠ "" ∧ name ≠ "." ∧ name ≠ ".." := by
  simp only [isName, Bool.and_eq_true, decide_eq_true_eq, ne_eq] at h
  exact ⟨h.1.1.1, h.1.1.2, h.1.2⟩

theorem component?_of_isName {name : String} (h : isName name = true) :
    Path.component? name = some (.name name) := by
  obtain ⟨hempty, hdot, hup⟩ := isName_spec h
  rw [Path.component?_eq, if_neg (not_or.mpr ⟨hempty, hdot⟩), if_neg hup]

theorem filterMap_component?_of_isName {ns : List String} (h : ∀ n ∈ ns, isName n = true) :
    ns.filterMap Path.component? = ns.map .name := by
  rw [← List.filterMap_eq_map]
  apply List.filterMap_congr
  intro n hn
  exact component?_of_isName (h n hn)

/-! ## Walks -/

theorem walk_idle {fs : FileSystem} {place : Location} {piece : String} (pieces : List String)
    (hdir : fs.at? place = some .directory) (hidle : piece = "" ∨ piece = ".") :
    fs.walk place (piece :: pieces) = fs.walk place pieces := by
  rw [walk, if_neg (by simp [hdir]), if_pos hidle]

theorem walk_up {fs : FileSystem} {place : Location} (pieces : List String)
    (hdir : fs.at? place = some .directory) :
    fs.walk place (".." :: pieces) = fs.walk place.dropLast pieces := by
  rw [walk, if_neg (by simp [hdir]), if_neg (by decide), if_pos rfl]

theorem walk_name {fs : FileSystem} {place : Location} {piece : String} (pieces : List String)
    (hname : Path.pieceName? piece = some piece) (hdir : fs.at? place = some .directory)
    (h : (fs.at? (place ++ [piece])).isSome) :
    fs.walk place (piece :: pieces) = fs.walk (place ++ [piece]) pieces := by
  obtain ⟨e, he⟩ := Option.isSome_iff_exists.mp h
  rw [Path.pieceName?_eq, ite_eq_right_iff] at hname
  have hproper : ¬ (piece = "" ∨ piece = "." ∨ piece = "..") := fun hor => nomatch hname hor
  obtain ⟨hempty, hrest⟩ := not_or.mp hproper
  obtain ⟨hdot, hup⟩ := not_or.mp hrest
  rw [walk, if_neg (by simp [hdir]), if_neg (not_or.mpr ⟨hempty, hdot⟩), if_neg hup, he]

/-- All that a walk which gets somewhere can do with its first piece. -/
theorem walk_cons_eq_ok {fs : FileSystem} {place next : Location} {piece : String}
    {pieces : List String} (h : fs.walk place (piece :: pieces) = .ok next) :
    fs.at? place = some .directory ∧
      ((piece = "" ∨ piece = ".") ∧ fs.walk place pieces = .ok next ∨
        piece = ".." ∧ fs.walk place.dropLast pieces = .ok next ∨
        Path.pieceName? piece = some piece ∧ (fs.at? (place ++ [piece])).isSome ∧
          fs.walk (place ++ [piece]) pieces = .ok next) := by
  rw [walk] at h
  split at h
  · cases h
  · rename_i hdir
    refine ⟨not_not.mp hdir, ?_⟩
    split at h
    · rename_i hidle
      exact .inl ⟨hidle, h⟩
    · rename_i hidle
      obtain ⟨hempty, hdot⟩ := not_or.mp hidle
      split at h
      · rename_i hup
        exact .inr (.inl ⟨hup, h⟩)
      · rename_i hup
        have hname : Path.pieceName? piece = some piece := by
          rw [Path.pieceName?_eq, if_neg (by simp [hempty, hdot, hup])]
        cases hentry : fs.at? (place ++ [piece]) with
        | none => simp [hentry] at h
        | some e =>
            rw [hentry] at h
            exact .inr (.inr ⟨hname, rfl, h⟩)

theorem walk_append {fs : FileSystem} {place next : Location} {xs : List String}
    (h : fs.walk place xs = .ok next) (ys : List String) :
    fs.walk place (xs ++ ys) = fs.walk next ys := by
  induction xs generalizing place with
  | nil =>
      cases h
      rfl
  | cons x xs ih =>
      obtain ⟨hdir, ⟨hidle, hnext⟩ | ⟨hx, hnext⟩ | ⟨hname, hsome, hnext⟩⟩ := walk_cons_eq_ok h
      · rw [List.cons_append, walk_idle _ hdir hidle, ih hnext]
      · rw [List.cons_append, hx, walk_up _ hdir, ih hnext]
      · rw [List.cons_append, walk_name _ hname hdir hsome, ih hnext]

theorem walk_append_eq_ok {fs : FileSystem} {place next : Location} {xs ys : List String}
    (h : fs.walk place (xs ++ ys) = .ok next) :
    ∃ mid, fs.walk place xs = .ok mid ∧ fs.walk mid ys = .ok next := by
  induction xs generalizing place with
  | nil => exact ⟨place, rfl, h⟩
  | cons x xs ih =>
      obtain ⟨hdir, ⟨hidle, hnext⟩ | ⟨rfl, hnext⟩ | ⟨hname, hsome, hnext⟩⟩ := walk_cons_eq_ok h
      · rw [walk_idle xs hdir hidle]
        exact ih hnext
      · rw [walk_up xs hdir]
        exact ih hnext
      · rw [walk_name xs hname hdir hsome]
        exact ih hnext

theorem eq_of_walk_idle {fs : FileSystem} {place next : Location} {pieces : List String}
    (h : fs.walk place pieces = .ok next) (hidle : ∀ x ∈ pieces, x = "" ∨ x = ".") :
    next = place := by
  induction pieces with
  | nil =>
      cases h
      rfl
  | cons x xs ih =>
      obtain ⟨hx, hxs⟩ := List.forall_mem_cons.mp hidle
      obtain ⟨hdir, _⟩ := walk_cons_eq_ok h
      rw [walk_idle xs hdir hx] at h
      exact ih h hxs

theorem pieceName?_idle {piece : String} (h : piece = "" ∨ piece = ".") :
    Path.pieceName? piece = none := by
  rw [Path.pieceName?_eq, if_pos (h.imp_right .inl)]

/-- A walk without a step up ends at the names on its way. -/
theorem eq_of_walk {fs : FileSystem} {place next : Location} {pieces : List String}
    (h : fs.walk place pieces = .ok next) (hup : ".." ∉ pieces) :
    next = place ++ pieces.filterMap Path.pieceName? := by
  induction pieces generalizing place with
  | nil =>
      cases h
      simp
  | cons x xs ih =>
      obtain ⟨hx, hxs⟩ := not_or.mp (fun hor => hup (List.mem_cons.mpr hor))
      obtain ⟨_, ⟨hidle, hnext⟩ | ⟨hpiece, _⟩ | ⟨hname, _, hnext⟩⟩ := walk_cons_eq_ok h
      · rw [List.filterMap_cons_none (pieceName?_idle hidle)]
        exact ih hnext hxs
      · exact absurd hpiece.symm hx
      · rw [List.filterMap_cons_some hname, ih hnext hxs, List.append_assoc]
        rfl

/-- What lies on the way to something exists. -/
theorem isSome_at?_of_append {fs : FileSystem} {place rest : Location}
    (h : (fs.at? (place ++ rest)).isSome) : (fs.at? place).isSome := by
  by_cases hrest : rest = []
  · simpa [hrest] using h
  · simp [at?_eq_directory_of_append hrest h]

/-- A walk to a directory that exists gets there, whatever idle pieces are on its way. -/
theorem walk_of_directory {fs : FileSystem} {place : Location} {pieces : List String}
    (hup : ".." ∉ pieces)
    (h : fs.at? (place ++ pieces.filterMap Path.pieceName?) = some .directory) :
    fs.walk place pieces = .ok (place ++ pieces.filterMap Path.pieceName?) := by
  induction pieces generalizing place with
  | nil => simp [walk]
  | cons x xs ih =>
      obtain ⟨hx, hxs⟩ := not_or.mp (fun hor => hup (List.mem_cons.mpr hor))
      have hdir : fs.at? place = some .directory := by
        by_cases hrest : (x :: xs).filterMap Path.pieceName? = []
        · simpa [hrest] using h
        · exact at?_eq_directory_of_append hrest (by simp [h])
      by_cases hidle : x = "" ∨ x = "."
      · rw [List.filterMap_cons_none (pieceName?_idle hidle)] at h ⊢
        rw [walk_idle _ hdir hidle, ih hxs h]
      · have hname : Path.pieceName? x = some x := by
          obtain ⟨hempty, hdot⟩ := not_or.mp hidle
          rw [Path.pieceName?_eq, if_neg (by simp [hempty, hdot, Ne.symm hx])]
        rw [List.filterMap_cons_some hname, List.append_cons] at h ⊢
        have hsome : (fs.at? (place ++ [x])).isSome :=
          isSome_at?_of_append (Option.isSome_iff_exists.mpr ⟨_, h⟩)
        rw [walk_name _ hname hdir hsome, ih hxs h]

theorem pieceName?_of_isName {name : String} (h : isName name = true) :
    Path.pieceName? name = some name := by
  obtain ⟨hempty, hdot, hup⟩ := isName_spec h
  rw [Path.pieceName?_eq, if_neg (by simp [hempty, hdot, hup])]

theorem isAbsolute_of_isName {ns : List String} (h : ∀ n ∈ ns, isName n = true) :
    Path.isAbsolute ⟨ns⟩ = false := by
  cases habs : Path.isAbsolute ⟨ns⟩ with
  | false => rfl
  | true =>
      obtain ⟨x, xs, rfl⟩ := (Path.isAbsolute_iff _).mp habs
      exact absurd rfl (isName_spec (h "" List.mem_cons_self)).1

/-- The names of an existing place lead to it. -/
theorem walk_names {fs : FileSystem} {place ns : Location} (h : (fs.at? (place ++ ns)).isSome)
    (hns : ∀ n ∈ ns, isName n = true) : fs.walk place ns = .ok (place ++ ns) := by
  induction ns generalizing place with
  | nil => simp [walk]
  | cons n ns ih =>
      obtain ⟨hn, hns⟩ := List.forall_mem_cons.mp hns
      have hdir : fs.at? place = some .directory := at?_eq_directory_of_append (by simp) h
      rw [List.append_cons] at h ⊢
      rw [walk_name _ (pieceName?_of_isName hn) hdir (isSome_at?_of_append h), ih h hns]

/-- A walk from something that exists ends at something that exists. -/
theorem isSome_at?_of_walk {fs : FileSystem} {place next : Location} {pieces : List String}
    (h : fs.walk place pieces = .ok next) (hsome : (fs.at? place).isSome) :
    (fs.at? next).isSome := by
  induction pieces generalizing place with
  | nil =>
      cases h
      exact hsome
  | cons x xs ih =>
      obtain ⟨_, ⟨_, hnext⟩ | ⟨_, hnext⟩ | ⟨_, hentry, hnext⟩⟩ := walk_cons_eq_ok h
      · exact ih hnext hsome
      · refine ih hnext ?_
        by_cases hplace : place = []
        · simpa [hplace] using hsome
        · rw [← List.dropLast_append_getLast hplace] at hsome
          exact isSome_at?_of_append hsome
      · exact ih hnext hentry

/-! ## Paths as walks -/

/-- Where the walk along a path begins. -/
def origin (fs : FileSystem) (p : Path) : Location := if p.isAbsolute then [] else fs.current

theorem locate_eq (fs : FileSystem) (p : Path) :
    fs.locate p =
      if p.isEmpty then .error .notFound else fs.walk (fs.origin p) p.steps := by
  unfold locate origin Path.steps
  split
  · rfl
  · split
    · rfl
    · rfl

theorem not_isEmpty_of_locate {fs : FileSystem} {p : Path} {place : Location}
    (h : fs.locate p = .ok place) : p.isEmpty = false := by
  rw [locate_eq] at h
  split at h
  · cases h
  · rename_i hempty
    simpa using hempty

theorem locate_of_hasPath {fs : FileSystem} {p : Path} (h : fs.hasPath p = true) :
    ∃ place, fs.locate p = .ok place := by
  rw [hasPath] at h
  cases hlocate : fs.locate p with
  | ok place => exact ⟨place, rfl⟩
  | error e =>
      rw [hlocate] at h
      cases h

theorem locate_of_find? {fs : FileSystem} {p : Path} {e : Entry} (h : fs.find? p = some e) :
    ∃ place, fs.locate p = .ok place ∧ fs.at? place = some e := by
  rw [find?] at h
  split at h
  · rename_i place hlocate
    exact ⟨place, hlocate, h⟩
  · cases h

theorem locate_of_isDirectory {fs : FileSystem} {p : Path} (h : fs.isDirectory p = true) :
    ∃ place, fs.locate p = .ok place ∧ fs.at? place = some .directory := by
  rw [isDirectory, decide_eq_true_eq] at h
  exact locate_of_find? h

/-- The walk along a relative path that leads somewhere begins with a piece that is written. -/
theorem walk_of_relative {fs : FileSystem} {root : Path} {place : Location}
    (hrel : root.isAbsolute = false) (hlocate : fs.locate root = .ok place) :
    ∃ x xs, root.pieces = x :: xs ∧ x ≠ "" ∧ fs.walk fs.current (x :: xs) = .ok place := by
  have hempty := not_isEmpty_of_locate hlocate
  rw [locate_eq, hempty, origin, Path.steps, hrel] at hlocate
  cases hpieces : root.pieces with
  | nil => simp [Path.isEmpty, hpieces] at hempty
  | cons x xs =>
      refine ⟨x, xs, rfl, ?_, by simpa [hpieces] using hlocate⟩
      rintro rfl
      simp [Path.isAbsolute_of_pieces hpieces hempty] at hrel

theorem steps_join {p q : Path} (hp : p.isEmpty = false) (hq : q.isAbsolute = false)
    (hne : q.pieces ≠ []) :
    ∃ front, (p.join q).steps = front ++ q.pieces ∧
      (p.steps = front ∨ p.steps = front ++ [""]) := by
  obtain ⟨x, before, hjoin, hbefore⟩ := Path.pieces_join hp hq
  unfold Path.steps
  rw [Path.isAbsolute_join hp hq hne, hjoin]
  cases p.isAbsolute with
  | true => exact ⟨before, rfl, hbefore.imp (by simp [·]) (by simp [·])⟩
  | false => exact ⟨x :: before, rfl, hbefore⟩

/-- A path joined to one that leads somewhere goes on from there. -/
theorem locate_join {fs : FileSystem} {p q : Path} {place : Location}
    (hp : fs.locate p = .ok place) (hq : q.isAbsolute = false) (hne : q.pieces ≠ []) :
    fs.locate (p.join q) = fs.walk place q.pieces := by
  have hempty := not_isEmpty_of_locate hp
  obtain ⟨front, hsteps, hfront⟩ := steps_join hempty hq hne
  have hwalk : fs.walk (fs.origin p) front = .ok place := by
    rw [locate_eq, hempty, if_neg (by simp)] at hp
    rcases hfront with hfront | hfront
    · rwa [hfront] at hp
    · rw [hfront] at hp
      obtain ⟨mid, hmid, hslash⟩ := walk_append_eq_ok hp
      rwa [eq_of_walk_idle hslash (by simp)]
  have horigin : fs.origin (p.join q) = fs.origin p := by
    rw [origin, origin, Path.isAbsolute_join hempty hq hne]
  rw [locate_eq, Path.isEmpty_join hempty hq hne, horigin, hsteps, walk_append hwalk]
  rfl

theorem locate_extend {fs : FileSystem} {p : Path} {place next : Location} {pieces : List String}
    (hp : fs.locate p = .ok place) (h : fs.walk place pieces = .ok next) :
    fs.locate (p.extend pieces) = .ok next := by
  unfold Path.extend
  induction pieces generalizing p place with
  | nil => rwa [walk, ← hp] at h
  | cons x xs ih =>
      rw [← List.singleton_append] at h
      obtain ⟨mid, hmid, hrest⟩ := walk_append_eq_ok h
      refine ih ?_ hrest
      rw [locate_join hp (Path.isAbsolute_singleton x) (by simp)]
      exact hmid

/-! ## Absolute paths -/

theorem locate_of_isAbsolute {fs : FileSystem} {p : Path} (h : p.isAbsolute = true) :
    fs.locate p = fs.walk [] p.pieces.tail := by
  rw [locate, Path.not_isEmpty_of_isAbsolute h, if_neg (by simp), if_pos h]

/-! ## What paths lead to -/

/-- What a path leads to exists. -/
theorem isSome_at?_of_locate {fs : FileSystem} {p : Path} {place : Location}
    (h : fs.locate p = .ok place) : (fs.at? place).isSome := by
  have hempty := not_isEmpty_of_locate h
  cases habs : p.isAbsolute with
  | true =>
      rw [locate_of_isAbsolute habs] at h
      exact isSome_at?_of_walk h rfl
  | false =>
      obtain ⟨x, xs, _, _, hwalk⟩ := walk_of_relative habs h
      obtain ⟨hdir, _⟩ := walk_cons_eq_ok hwalk
      exact isSome_at?_of_walk hwalk (by simp [hdir])

theorem hasPath_eq_isSome_find? (fs : FileSystem) (p : Path) :
    fs.hasPath p = (fs.find? p).isSome := by
  rw [hasPath, find?]
  cases hlocate : fs.locate p with
  | error e => rfl
  | ok place => exact (isSome_at?_of_locate hlocate).symm

/-- What a path leads to settles what is read there. -/
theorem readText_congr {fs fs' : FileSystem} {p : Path} (h : fs'.find? p = fs.find? p)
    (hpath : fs.hasPath p = true) : fs'.readText p = fs.readText p := by
  rw [hasPath_eq_isSome_find?] at hpath
  obtain ⟨e, he⟩ := Option.isSome_iff_exists.mp hpath
  obtain ⟨place, hlocate, hat⟩ := locate_of_find? he
  obtain ⟨place', hlocate', hat'⟩ := locate_of_find? (h.trans he)
  simp only [readText, read, hlocate, hlocate', bind, Except.bind, hat, hat']

/-! ## Absolute paths without a step up -/

theorem filterMap_tail_eq_names {p : Path} (h : p.isAbsolute = true) :
    p.pieces.tail.filterMap Path.pieceName? = p.names := by
  obtain ⟨x, xs, hp⟩ := (Path.isAbsolute_iff p).mp h
  rw [Path.names_eq, hp, List.tail_cons, List.filterMap_cons_none (pieceName?_idle (.inl rfl))]

theorem not_up_mem_tail {p : Path} (hup : .up ∉ p.components) : ".." ∉ p.pieces.tail :=
  fun hmem => hup ((Path.up_mem_components_iff p).mpr (List.mem_of_mem_tail hmem))

theorem locate_of_directory {fs : FileSystem} {p : Path} (habs : p.isAbsolute = true)
    (hup : .up ∉ p.components) (h : fs.at? p.names = some .directory) :
    fs.locate p = .ok p.names := by
  have hnames := filterMap_tail_eq_names habs
  rw [locate_of_isAbsolute habs, walk_of_directory (not_up_mem_tail hup), List.nil_append, hnames]
  rwa [List.nil_append, hnames]

/-- An absolute path without a step up leads to a directory if its names do. -/
theorem isDirectory_iff {fs : FileSystem} {p : Path} (habs : p.isAbsolute = true)
    (hup : .up ∉ p.components) :
    fs.isDirectory p = true ↔ fs.at? p.names = some .directory := by
  rw [isDirectory, decide_eq_true_eq]
  constructor
  · intro hfind
    rw [find?, locate_of_isAbsolute habs] at hfind
    split at hfind
    · rename_i place hwalk
      have hplace := eq_of_walk hwalk (not_up_mem_tail hup)
      rw [filterMap_tail_eq_names habs, List.nil_append] at hplace
      rwa [← hplace]
    · cases hfind
  · intro hdir
    rw [find?, locate_of_directory habs hup hdir]
    exact hdir

/-! ## Paths that end in a name -/

theorem origin_of_isAbsolute {fs : FileSystem} {p : Path} (h : p.isAbsolute = true) :
    fs.origin p = [] := if_pos h

theorem filterMap_steps_eq_names (p : Path) : p.steps.filterMap Path.pieceName? = p.names := by
  rw [Path.steps]
  split
  · rename_i habs
    exact filterMap_tail_eq_names habs
  · exact p.names_eq.symm

theorem not_up_mem_steps {p : Path} (hup : .up ∉ p.components) : ".." ∉ p.steps := by
  rw [Path.steps]
  split
  · exact not_up_mem_tail hup
  · exact fun hmem => hup ((Path.up_mem_components_iff p).mpr hmem)

theorem steps_of_last {p : Path} {name : String} (hlast : p.pieces.getLast? = some name)
    (hname : isName name = true) : p.isEmpty = false ∧ ∃ before, p.steps = before ++ [name] := by
  obtain ⟨front, hfront⟩ := List.getLast?_eq_some_iff.mp hlast
  constructor
  · cases front with
    | nil => simp [Path.isEmpty, hfront, (isName_spec hname).1]
    | cons x front => simp [Path.isEmpty, hfront]
  · unfold Path.steps
    split
    · rename_i habs
      obtain ⟨x, xs, hp⟩ := (Path.isAbsolute_iff p).mp habs
      rw [hp, List.getLast?_cons_cons] at hlast
      rw [hp]
      exact List.getLast?_eq_some_iff.mp hlast
    · exact ⟨front, hfront⟩

section Last

variable {fs : FileSystem} {p : Path} {name : String} (hup : .up ∉ p.components)
  (hlast : p.pieces.getLast? = some name) (hname : isName name = true)

include hup hlast hname

/-- A path that ends in a name leads to the place of its names, however it is spelt before. -/
theorem locate_of_last (h : (fs.at? (fs.origin p ++ p.names)).isSome) :
    fs.locate p = .ok (fs.origin p ++ p.names) := by
  obtain ⟨hempty, before, hsteps⟩ := steps_of_last hlast hname
  have hbeforeUp : ".." ∉ before := fun hmem =>
    not_up_mem_steps hup (hsteps ▸ List.mem_append_left _ hmem)
  have hnames : p.names = before.filterMap Path.pieceName? ++ [name] := by
    rw [← filterMap_steps_eq_names, hsteps, List.filterMap_append,
      List.filterMap_cons_some (pieceName?_of_isName hname), List.filterMap_nil]
  rw [hnames, ← List.append_assoc] at h ⊢
  -- Whatever stands before the name leads to a directory, since the name is found there.
  have hdir := at?_eq_directory_of_append (by simp) h
  rw [locate_eq, hempty, if_neg (by simp), hsteps, walk_append (walk_of_directory hbeforeUp hdir),
    walk_names h (by simpa using hname)]

theorem hasPath_iff_of_last :
    fs.hasPath p = true ↔ (fs.at? (fs.origin p ++ p.names)).isSome = true := by
  constructor
  · intro h
    obtain ⟨place, hlocate⟩ := locate_of_hasPath h
    have hsome := isSome_at?_of_locate hlocate
    have hempty := not_isEmpty_of_locate hlocate
    rw [locate_eq, hempty, if_neg (by simp)] at hlocate
    rwa [eq_of_walk hlocate (not_up_mem_steps hup), filterMap_steps_eq_names] at hsome
  · intro h
    rw [hasPath, locate_of_last hup hlast hname h]
    rfl

theorem find?_of_last : fs.find? p = fs.at? (fs.origin p ++ p.names) := by
  cases hentry : fs.at? (fs.origin p ++ p.names) with
  | none =>
      rw [← Option.isNone_iff_eq_none, ← Option.not_isSome, ← hasPath_eq_isSome_find?,
        Bool.not_eq_true', ← Bool.not_eq_true, hasPath_iff_of_last hup hlast hname, hentry]
      simp
  | some e =>
      rw [find?, locate_of_last hup hlast hname (by simp [hentry])]
      exact hentry

end Last

theorem names_of_isEmpty {p : Path} (h : p.isEmpty = true) : p.names = [] := by
  simp only [Path.isEmpty, Bool.or_eq_true, decide_eq_true_eq] at h
  rw [Path.names_eq]
  rcases h with h | h
  · rw [h, List.filterMap_nil]
  · rw [h, List.filterMap_cons_none (pieceName?_idle (.inl rfl)), List.filterMap_nil]

/-- A name joined to a path without a step up is found after the names of the path. -/
theorem find?_join {fs : FileSystem} {dir : Path} {name : String} (hup : .up ∉ dir.components)
    (hname : isName name = true) :
    fs.find? (dir.join ⟨[name]⟩) = fs.at? (fs.origin dir ++ dir.names ++ [name]) := by
  have hrelative := Path.isAbsolute_singleton name
  have hcomponent := component?_of_isName hname
  have hself : Path.components ⟨[name]⟩ = [.name name] := by
    obtain ⟨hempty, hdot, _⟩ := isName_spec hname
    rw [Path.components_of_pieces rfl hempty hdot, List.filterMap_cons_some hcomponent,
      List.filterMap_nil]
  cases hempty : dir.isEmpty with
  | true =>
      have habs : dir.isAbsolute = false := by
        by_contra habs
        simp [Path.not_isEmpty_of_isAbsolute (by simpa using habs)] at hempty
      have hjoin : dir.join ⟨[name]⟩ = ⟨[name]⟩ := by
        rw [Path.join, hempty, Bool.or_true, if_pos rfl]
      rw [hjoin, find?_of_last (by simp [hself]) rfl hname, names_of_isEmpty hempty, Path.names,
        hself, origin, origin, hrelative, habs, List.append_nil]
      rfl
  | false =>
      have hne : (Path.mk [name]).pieces ≠ [] := by simp
      have hcomponents : (dir.join ⟨[name]⟩).components = dir.components ++ [.name name] := by
        rw [Path.components_join hempty hrelative hne, List.filterMap_cons_some hcomponent,
          List.filterMap_nil]
      have hnames : (dir.join ⟨[name]⟩).names = dir.names ++ [name] := by
        rw [Path.names, hcomponents, List.filterMap_append]
        rfl
      have horigin : fs.origin (dir.join ⟨[name]⟩) = fs.origin dir := by
        rw [origin, origin, Path.isAbsolute_join hempty hrelative hne]
      obtain ⟨x, before, hpieces, _⟩ := Path.pieces_join hempty hrelative
      rw [find?_of_last (by simp [hcomponents, hup])
        (by rw [hpieces, ← List.cons_append, List.getLast?_concat]) hname, hnames, horigin,
        List.append_assoc]

/-- Names joined to the path of a directory lead to the place of these names in it. -/
theorem locate_join_names {fs : FileSystem} {p : Path} {place ns : Location}
    (hp : fs.locate p = .ok place) (hns : ∀ n ∈ ns, isName n = true) (hne : ns ≠ [])
    (h : (fs.at? (place ++ ns)).isSome) : fs.locate (p.join ⟨ns⟩) = .ok (place ++ ns) := by
  rw [locate_join hp (isAbsolute_of_isName hns) hne, walk_names h hns]

/-! ## Canonical paths -/

theorem isAbsolute_pathTo (place : Location) : (pathTo place).isAbsolute = true := by
  cases place with
  | nil => rfl
  | cons n ns => rfl

theorem components_pathTo {place : Location} (h : ∀ name ∈ place, isName name = true) :
    (pathTo place).components = .root :: place.map .name := by
  rw [Path.components_of_isAbsolute (isAbsolute_pathTo place)]
  have hslash : Path.component? "" = none := rfl
  cases place with
  | nil => rfl
  | cons n ns => simp [pathTo, hslash, filterMap_component?_of_isName h]

theorem isAbsolute_of_canonical {fs : FileSystem} {p root : Path} (h : fs.canonical p = .ok root) :
    root.isAbsolute = true := by
  rw [canonical] at h
  cases hlocate : fs.locate p with
  | error e => simp [hlocate, Except.map] at h
  | ok place =>
      rw [hlocate] at h
      cases h
      exact isAbsolute_pathTo place

end FileSystem
end RuleBuild
