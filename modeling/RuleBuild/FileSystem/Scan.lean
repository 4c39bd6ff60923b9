import RuleBuild.FileSystem

/-!
Everything below a directory, at any depth, as paths that begin with the directory as it is spelt.
The spelling is kept as far as it is a path: slashes that follow one another become one, except at
the very beginning, and a dot at the beginning is left out.
-/
namespace RuleBuild

/-- A directory to scan: the path that its entries are shown under, and its place. -/
structure ScanBase where
  shown : Path
  place : Location
  deriving Repr, DecidableEq

namespace ScanBase

/-- The directory where relative paths begin. -/
def start (fs : FileSystem) : ScanBase := ⟨⟨["."]⟩, fs.current⟩

/-- Whether entries are shown by their names alone. -/
def isHere (b : ScanBase) : Bool := b.shown.components = [.here]

/-- The path under which something in the directory is shown. -/
def showEntry (b : ScanBase) (p : Path) : Path := if b.isHere then p else b.shown.join p

/-- A character that stands for others in a pattern. -/
def isWild (c : Char) : Bool := c = '?' || c = '*' || c = '[' || c = ']'

/-- Whether a piece is looked up among the listed names of a directory, because it is written with
characters that have to be quoted. -/
def isListed (piece : String) : Bool := piece.toList.any isWild

/-- A name that begins with a dot. -/
def isDotName (name : String) : Bool := name.toList.head? = some '.'

/-- The directory or file that a piece leads to. With `hideDots`, names that begin with a dot are
not listed. -/
def step (fs : FileSystem) (hideDots : Bool) (b : ScanBase) (piece : String) : Option ScanBase :=
  let shown := b.showEntry ⟨[piece]⟩
  if hideDots && isListed piece && isDotName piece then none
  else
    match fs.locate shown with
    | .ok place => some ⟨shown, place⟩
    | .error _ => none

/-- Whether a piece is passed over at the beginning of an absolute path. -/
def isIdle (piece : String) : Bool := piece = "" || piece = "."

/-- The directory that a scan of `root` begins in, if there is one. A path written with nothing
stands for the root of the file system. -/
def of? (fs : FileSystem) (hideDots : Bool) (root : Path) : Option ScanBase :=
  let base :=
    if root.isAbsolute || root.isEmpty then
      let rest := root.pieces.tail
      let idle := rest.takeWhile isIdle
      (rest.dropWhile isIdle).foldlM (step fs hideDots) ⟨⟨"" :: idle ++ [""]⟩, []⟩
    else root.pieces.foldlM (step fs hideDots) (start fs)
  base.filter fun b => fs.at? b.place = some .directory

/-- The names that lead from the directory to each entry below it, in order. -/
def namesBelow (fs : FileSystem) (b : ScanBase) : List Location :=
  (fs.below b.place).map (·.drop b.place.length)

end ScanBase

namespace FileSystem

/-- The names of everything below `root` and the path under which each is shown, in order of the
names. With `hideDots`, whatever has a name on the way that begins with a dot is left out. -/
def scan (fs : FileSystem) (hideDots : Bool) (root : Path) : List (Location × Path) :=
  match ScanBase.of? fs hideDots root with
  | none => []
  | some b =>
    ((b.namesBelow fs).filter fun names => ! (hideDots && names.any ScanBase.isDotName)).map
      fun names => (names, b.showEntry ⟨names⟩)

end FileSystem
end RuleBuild
