import RuleBuild.Text.Split

/-!
Paths as they are written, and the components they consist of. A path keeps its spelling: repeated
slashes, dots and a slash at the end show where the path itself is shown, and count nowhere else.
The names in these paths are texts.
-/
namespace RuleBuild

/-- A path by the pieces between its slashes: `/a//b` is `["", "a", "", "b"]`. -/
structure Path where
  pieces : List String
  deriving Repr, DecidableEq, Inhabited

/-- A part of a path that counts: the root, a dot at the very beginning, a step up, or a name. -/
inductive Component (Name : Type)
  | root
  | here
  | up
  | name (n : Name)
  deriving Repr, DecidableEq

namespace Component

/-- A component with its name, if it has one, in another form. -/
def map {Name Name' : Type} (f : Name → Name') : Component Name → Component Name'
  | .root => .root
  | .here => .here
  | .up => .up
  | .name n => .name (f n)

/-- The text of a component. -/
def text : Component String → String
  | .root => "/"
  | .here => "."
  | .up => ".."
  | .name s => s

/-- Whether a component is a name that begins with a dot. -/
def isDotted : Component String → Bool
  | .name s => s.toList.head? = some '.'
  | _ => false

end Component

namespace Path

/-- The path of a text. -/
def ofString (s : String) : Path :=
  ⟨(Text.split '/' s.toList).map String.ofList⟩

/-- The text of a path. -/
def toString (p : Path) : String :=
  String.ofList (Text.join '/' (p.pieces.map String.toList))

instance : ToString Path := ⟨Path.toString⟩

/-- The path without a component. -/
def empty : Path := ⟨[""]⟩

/-- Whether a path is written with nothing. -/
def isEmpty (p : Path) : Bool := p.pieces = [] || p.pieces = [""]

/-- Whether a path begins at the root. -/
def isAbsolute (p : Path) : Bool :=
  match p.pieces with
  | "" :: _ :: _ => true
  | _ => false

/-- The component of a piece that is not the first. -/
def component? : String → Option (Component String)
  | "" => none
  | "." => none
  | ".." => some .up
  | s => some (.name s)

/-- The components of a path. -/
def components (p : Path) : List (Component String) :=
  match p.pieces with
  | "" :: x :: xs => .root :: (x :: xs).filterMap component?
  | "." :: xs => .here :: xs.filterMap component?
  | xs => xs.filterMap component?

/-- `q` seen from `p`. An absolute `q` stays what it is; an empty one leaves a slash at the end. -/
def join (p q : Path) : Path :=
  if q.isAbsolute || p.isEmpty then q
  else if p.pieces.getLast? = some "" then ⟨p.pieces.dropLast ++ q.pieces⟩
  else ⟨p.pieces ++ q.pieces⟩

/-- The name at the end of a path. -/
def fileName? (p : Path) : Option String :=
  match p.components.getLast? with
  | some (.name s) => some s
  | _ => none

/-- What stands after the last dot of a name, if something stands before it. -/
def extensionOf? (name : String) : Option String :=
  match (Text.split '.' name.toList).reverse with
  | e :: p :: ps => if ps.isEmpty && p.isEmpty then none else some (String.ofList e)
  | _ => none

/-- The extension of the name at the end of a path. -/
def extension? (p : Path) : Option String := p.fileName?.bind extensionOf?

/-- Pieces without those at the end that are no components. -/
def trimEnd (pieces : List String) : List String :=
  (pieces.reverse.dropWhile fun s => s = "" || s = ".").reverse

/-- The path without its last component, none for the root and for the empty path. -/
def parent? (p : Path) : Option Path :=
  match p.pieces with
  | "" :: x :: xs =>
    match trimEnd (x :: xs) with
    | [] => none
    | ys =>
      match trimEnd ys.dropLast with
      | [] => some ⟨["", ""]⟩
      | zs => some ⟨"" :: zs⟩
  | "." :: xs =>
    match trimEnd xs with
    | [] => some empty
    | ys => some ⟨"." :: trimEnd ys.dropLast⟩
  | xs =>
    match trimEnd xs with
    | [] => none
    | ys =>
      match trimEnd ys.dropLast with
      | [] => some empty
      | zs => some ⟨zs⟩

/-- What is left of `cs` after `pre`. -/
def strip? :
    List (Component String) → List (Component String) → Option (List (Component String))
  | [], cs => some cs
  | p :: ps, c :: cs => if p = c then strip? ps cs else none
  | _ :: _, [] => none

/-- The components below `root`, or all of them for a path elsewhere; a dot does not count. -/
def below (root p : Path) : List (Component String) :=
  ((strip? root.components p.components).getD p.components).filter (· ≠ .here)

end Path
end RuleBuild
