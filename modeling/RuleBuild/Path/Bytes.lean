import RuleBuild.Path.Relative
import RuleBuild.Text.Utf8

/-!
Paths as bytes. The names of files need not be texts, so a path is what stands between the slashes,
whatever it encodes. It has components as the path of a text has, and the same way to another path.
-/
namespace RuleBuild

/-- A path by the bytes between its slashes. -/
structure BytePath where
  pieces : List Bytes
  deriving Repr, DecidableEq

namespace BytePath

/-- The byte of a slash. -/
def slash : UInt8 := 0x2F

/-- The byte of a dot. -/
def dot : UInt8 := 0x2E

/-- The path of bytes. -/
def ofBytes (bytes : Bytes) : BytePath := ⟨Text.split slash bytes⟩

/-- The path whose pieces are encoded texts. -/
def ofPath (p : Path) : BytePath := ⟨p.pieces.map bytesOf⟩

/-- Whether a path begins at the root. -/
def isAbsolute (p : BytePath) : Bool :=
  match p.pieces with
  | [] :: _ :: _ => true
  | _ => false

/-- The component of a piece that is not the first. -/
def component? (piece : Bytes) : Option (Component Bytes) :=
  if piece = [] ∨ piece = [dot] then none
  else if piece = [dot, dot] then some .up
  else some (.name piece)

/-- The components of a path. -/
def components (p : BytePath) : List (Component Bytes) :=
  match p.pieces with
  | [] :: x :: xs => .root :: (x :: xs).filterMap component?
  | x :: xs =>
    if x = [dot] then .here :: xs.filterMap component? else (x :: xs).filterMap component?
  | [] => []

/-- The components of the way from `base` to `p`, none where there is no way. -/
def relativeTo? (base p : BytePath) : Option (List (Component Bytes)) :=
  Path.wayTo? p.isAbsolute base.isAbsolute p.components base.components

end BytePath
end RuleBuild
