import Std.Data.ExtTreeMap
import RuleBuild.Path
import RuleBuild.Text.Utf8

/-!
A file system as a value: what is found at each place, where a place is the list of names that lead
to it from the root. Every file and directory has a name that a path can spell, and lies in a
directory, so whoever walks down from the root reaches all of them. Whatever is there can be read;
whether something can be written or made at a place is for the file system to say.
-/
namespace RuleBuild

/-- A place in the file system, by the names from the root down to it. -/
abbrev Location := List String

/-- What is found at a place. -/
inductive Entry
  | file (content : Bytes)
  | directory
  deriving Repr, DecidableEq

/-- Why the file system refuses an operation. -/
inductive FileError
  | notFound
  | exists
  | notDirectory
  | isDirectory
  | notPermitted
  | notText
  | other (text : String)
  deriving Repr, DecidableEq

/-- The wording of a refusal. -/
def FileError.message : FileError → String
  | .notFound => "No such file or directory (os error 2)"
  | .exists => "File exists (os error 17)"
  | .notDirectory => "Not a directory (os error 20)"
  | .isDirectory => "Is a directory (os error 21)"
  | .notPermitted => "Permission denied (os error 13)"
  | .notText => "stream did not contain valid UTF-8"
  | .other text => text

/-- The entries of a file system. -/
abbrev Entries := Std.ExtTreeMap Location Entry

/-- What is found at a place; the root is always a directory. -/
def Entries.at? (entries : Entries) (place : Location) : Option Entry :=
  if place = [] then some .directory else entries[place]?

/-- Whether everything lies in a directory. -/
def Entries.Closed (entries : Entries) : Prop :=
  ∀ (place : Location) (name : String),
    place ++ [name] ∈ entries → entries.at? place = some .directory

/-- Whether a piece of a path can be the name of something in a directory. -/
def FileSystem.isName (piece : String) : Bool :=
  piece ≠ "" && piece ≠ "." && piece ≠ ".." && ! piece.toList.contains '/'

/-- Whether everything has a name. -/
def Entries.Named (entries : Entries) : Prop :=
  ∀ place ∈ entries, ∀ name ∈ place, FileSystem.isName name

/-- Files and directories, the directory in which relative paths begin, and why nothing is to be
written or made at a place, if it is not: a file may be protected, a directory may take no more
names, and a medium may be full. -/
structure FileSystem where
  entries : Entries
  current : Location
  refuses : Location → Option FileError
  closed : entries.Closed
  named : entries.Named

namespace Entries

theorem closed_empty : Closed (∅ : Entries) := by
  intro place name h
  simp at h

/-- An entry put into a directory leaves everything in directories, provided it takes the place of
no directory. -/
theorem Closed.insert {entries : Entries} (h : entries.Closed) {place : Location} {name : String}
    {e : Entry} (hdir : entries.at? place = some .directory)
    (hfree : entries[place ++ [name]]? ≠ some .directory) :
    Closed (entries.insert (place ++ [name]) e) := by
  intro p n hmem
  have hne : place ++ [name] ≠ p ∨ p = [] := by
    by_cases hp : p = []
    · exact .inr hp
    · refine .inl fun heq => ?_
      subst heq
      rw [Std.ExtTreeMap.mem_insert] at hmem
      rcases hmem with hmem | hmem
      · simp at hmem
      · have := h _ _ hmem
        rw [at?, if_neg hp] at this
        exact hfree this
  rcases hne with hne | rfl
  · have key : at? (entries.insert (place ++ [name]) e) p = entries.at? p := by
      unfold at?
      split
      · rfl
      · rw [Std.ExtTreeMap.getElem?_insert]
        simp [hne]
    rw [key]
    rw [Std.ExtTreeMap.mem_insert] at hmem
    rcases hmem with hmem | hmem
    · have := Std.LawfulEqCmp.eq_of_compare hmem
      obtain ⟨rfl, _⟩ := List.append_inj' this rfl
      exact hdir
    · exact h _ _ hmem
  · simp [at?]

theorem named_empty : Named (∅ : Entries) := by
  intro place h
  simp at h

/-- An entry with a name put into a directory leaves everything with a name. -/
theorem Named.insert {entries : Entries} (h : entries.Named) {place : Location} {name : String}
    {e : Entry} (hdir : entries.at? place = some .directory) (hname : FileSystem.isName name) :
    Named (entries.insert (place ++ [name]) e) := by
  intro p hmem n hn
  rw [Std.ExtTreeMap.mem_insert] at hmem
  rcases hmem with hmem | hmem
  · rw [← Std.LawfulEqCmp.eq_of_compare hmem] at hn
    rcases List.mem_append.1 hn with hn | hn
    · unfold at? at hdir
      split at hdir
      · simp_all
      · exact h place (Std.ExtTreeMap.mem_iff_isSome_getElem?.2 (by simp [hdir])) n hn
    · rw [List.mem_singleton.1 hn]
      exact hname
  · exact h p hmem n hn

/-- The entries outside of `place`. -/
def without (entries : Entries) (place : Location) : Entries :=
  entries.filter fun p _ => ! place.isPrefixOf p

theorem getElem?_without (entries : Entries) (place p : Location) :
    (entries.without place)[p]? = if place.isPrefixOf p then none else entries[p]? := by
  unfold without
  simp only [Std.ExtTreeMap.getElem?_filter, Std.ExtTreeMap.getKey_eq]
  cases entries[p]? with
  | none => simp
  | some e => by_cases hp : place.isPrefixOf p = true <;> simp [Option.pfilter, hp]

theorem Closed.without {entries : Entries} (h : entries.Closed) (place : Location) :
    Closed (entries.without place) := by
  intro p n hmem
  rw [Std.ExtTreeMap.mem_iff_isSome_getElem?, getElem?_without] at hmem
  have hout : ¬ place.isPrefixOf (p ++ [n]) = true := fun hp => by simp [hp] at hmem
  rw [if_neg hout] at hmem
  have hp : ¬ place.isPrefixOf p = true := fun hp => hout <| by
    rw [List.isPrefixOf_iff_prefix] at hp ⊢
    exact hp.trans (List.prefix_append p [n])
  have := h p n (Std.ExtTreeMap.mem_iff_isSome_getElem?.2 hmem)
  unfold at? at this ⊢
  split
  · rfl
  · rename_i hne
    rw [if_neg hne] at this
    rw [getElem?_without, if_neg hp]
    exact this

theorem Named.without {entries : Entries} (h : entries.Named) (place : Location) :
    Named (entries.without place) := by
  intro p hmem
  rw [Std.ExtTreeMap.mem_iff_isSome_getElem?, getElem?_without] at hmem
  split at hmem
  · simp at hmem
  · exact h p (Std.ExtTreeMap.mem_iff_isSome_getElem?.2 hmem)

end Entries

namespace FileSystem

/-- What is found at a place. -/
def at? (fs : FileSystem) (place : Location) : Option Entry := fs.entries.at? place

/-- The place that pieces of a path lead to from a place that exists. -/
def walk (fs : FileSystem) (place : Location) : List String → Except FileError Location
  | [] => .ok place
  | piece :: pieces =>
    if fs.at? place ≠ some .directory then .error .notDirectory
    else if piece = "" ∨ piece = "." then fs.walk place pieces
    else if piece = ".." then fs.walk place.dropLast pieces
    else
      match fs.at? (place ++ [piece]) with
      | none => .error .notFound
      | some _ => fs.walk (place ++ [piece]) pieces

/-- The place of an existing path. -/
def locate (fs : FileSystem) (p : Path) : Except FileError Location :=
  if p.isEmpty then .error .notFound
  else if p.isAbsolute then fs.walk [] p.pieces.tail
  else fs.walk fs.current p.pieces

/-- What an existing path leads to. -/
def find? (fs : FileSystem) (p : Path) : Option Entry :=
  match fs.locate p with
  | .ok place => fs.at? place
  | .error _ => none

/-- Whether a path leads anywhere. -/
def hasPath (fs : FileSystem) (p : Path) : Bool := (fs.locate p).isOk

/-- Whether a path leads to a directory. -/
def isDirectory (fs : FileSystem) (p : Path) : Bool := fs.find? p = some .directory

/-- Whether a path leads to a file. -/
def isFile (fs : FileSystem) (p : Path) : Bool :=
  match fs.find? p with
  | some (.file _) => true
  | _ => false

/-- The path from the root to a place. -/
def pathTo (place : Location) : Path :=
  if place = [] then ⟨["", ""]⟩ else ⟨"" :: place⟩

/-- The path from the root to where `p` leads. -/
def canonical (fs : FileSystem) (p : Path) : Except FileError Path :=
  (fs.locate p).map pathTo

/-- The bytes of a file. -/
def read (fs : FileSystem) (p : Path) : Except FileError Bytes := do
  match fs.at? (← fs.locate p) with
  | some (.file content) => return content
  | _ => .error .isDirectory

/-- The text of a file. -/
def readText (fs : FileSystem) (p : Path) : Except FileError String := do
  match Utf8.decode (← fs.read p) with
  | .ok s => return s
  | .error _ => .error .notText

/-- The path without slashes at its end. -/
def withoutSlash (p : Path) : Path :=
  ⟨(p.pieces.reverse.dropWhile (· = "")).reverse⟩

/-- The directory in which the last piece of a path is to be found, and that piece. -/
def locateParent (fs : FileSystem) (p : Path) : Except FileError (Location × String) := do
  match p.pieces.reverse with
  | [] => .error .notFound
  | piece :: before =>
    let dir ←
      if before.isEmpty then pure fs.current
      else if p.isAbsolute then fs.walk [] before.reverse.tail
      else fs.walk fs.current before.reverse
    if fs.at? dir = some .directory then return (dir, piece) else .error .notDirectory

/-- `fs` with a new file, or a file with new content, in the directory `dir`. What is refused leaves
the file as it was. -/
def putFile (fs : FileSystem) (dir : Location) (name : String) (hname : isName name)
    (content : Bytes) : Except FileError FileSystem :=
  if hdir : fs.entries.at? dir = some .directory then
    if hfree : fs.entries[dir ++ [name]]? = some .directory then .error .isDirectory
    else
      match fs.refuses (dir ++ [name]) with
      | some e => .error e
      | none =>
        .ok { fs with
          entries := fs.entries.insert (dir ++ [name]) (.file content)
          closed := fs.closed.insert hdir hfree
          named := fs.named.insert hdir hname }
  else .error .notDirectory

/-- `fs` with a new directory in the directory `dir`. -/
def putDirectory (fs : FileSystem) (dir : Location) (name : String) (hname : isName name) :
    Except FileError FileSystem :=
  if hdir : fs.entries.at? dir = some .directory then
    match hfree : fs.entries[dir ++ [name]]? with
    | some _ => .error .exists
    | none =>
      match fs.refuses (dir ++ [name]) with
      | some e => .error e
      | none =>
        .ok { fs with
          entries := fs.entries.insert (dir ++ [name]) .directory
          closed := fs.closed.insert hdir (by simp [hfree])
          named := fs.named.insert hdir hname }
  else .error .notDirectory

/-- Writes a file, which may be new. A slash at the end asks for a directory. -/
def write (fs : FileSystem) (p : Path) (content : Bytes) : Except FileError FileSystem := do
  let q := withoutSlash p
  if p.isEmpty then .error .notFound
  else if q.pieces = [] then .error .isDirectory
  else
    let (dir, piece) ← fs.locateParent q
    if h : q = p ∧ isName piece then fs.putFile dir piece h.2 content else .error .isDirectory

/-- Makes a directory in an existing one. -/
def makeDirectory (fs : FileSystem) (p : Path) : Except FileError FileSystem := do
  let q := withoutSlash p
  if p.isEmpty then .error .notFound
  else if q.pieces = [] then .error .exists
  else
    let (dir, piece) ← fs.locateParent q
    if h : isName piece then fs.putDirectory dir piece h else .error .exists

/-- Makes a directory and those above it that are missing. Those that have been made stay where the
next one cannot be. -/
def makeDirectories (fs : FileSystem) : Nat → Path → Except FileError Unit × FileSystem
  | 0, _ => (.error .notFound, fs)
  | fuel + 1, p =>
    if p.isEmpty then (.ok (), fs)
    else
      match fs.makeDirectory p with
      | .ok fs => (.ok (), fs)
      | .error .notFound =>
        match p.parent? with
        | none => (.error .notFound, fs)
        | some parent =>
          match fs.makeDirectories fuel parent with
          | (.error e, fs) => (.error e, fs)
          | (.ok _, fs) =>
            match fs.makeDirectory p with
            | .ok fs => (.ok (), fs)
            | .error e => (if fs.isDirectory p then .ok () else .error e, fs)
      | .error e => (if fs.isDirectory p then .ok () else .error e, fs)

/-- Makes a directory and those above it that are missing. -/
def createDirectory (fs : FileSystem) (p : Path) : Except FileError Unit × FileSystem :=
  fs.makeDirectories (p.pieces.length + 1) p

/-- `fs` with a directory, for those who go on only where it is. -/
def ensureDirectory (fs : FileSystem) (p : Path) : Except FileError FileSystem :=
  let (made, fs) := fs.createDirectory p
  made.map fun _ => fs

/-- `fs` without what a path leads to. No command removes anything: what is there may go between two
of them. -/
def remove (fs : FileSystem) (p : Path) : FileSystem :=
  match fs.locate p with
  | .ok place =>
    { fs with
      entries := fs.entries.without place
      closed := fs.closed.without place
      named := fs.named.without place }
  | .error _ => fs

/-- The places below `place`, in the order of their names. -/
def below (fs : FileSystem) (place : Location) : List Location :=
  (fs.entries.toList.map (·.1)).filter fun p => place.isPrefixOf p && place.length < p.length

/-- A file system with nothing in it, which refuses nothing. -/
def empty : FileSystem := ⟨∅, [], fun _ => none, Entries.closed_empty, Entries.named_empty⟩

end FileSystem
end RuleBuild
