import RuleBuild.Path

/-!
The way from one path to another: up from the base as far as they differ, then down to the path.
-/
namespace RuleBuild.Path

section Way

variable {Name : Type} [DecidableEq Name]

/-- The way from the components `base` to the components `path`. Equal components count for nothing
as long as no step has been taken; from a base that goes up there is no way back. -/
def way (moved : Bool) :
    List (Component Name) → List (Component Name) → Option (List (Component Name))
  | [], [] => some []
  | a :: path, [] => some (a :: path)
  | [], _ :: base => (way true [] base).map (.up :: ·)
  | a :: path, b :: base =>
    if ! moved && a = b then way false path base
    else if b = .here then (way true path base).map (a :: ·)
    else if b = .up then none
    else some (.up :: base.map (fun _ => .up) ++ a :: path)

/-- A dot counts at the beginning only. -/
def dropDots : List (Component Name) → List (Component Name)
  | [] => []
  | c :: cs => c :: cs.filter (· ≠ .here)

/-- The components of the way from `base` to `path`, none where there is no way, given of both
whether they begin at the root. -/
def wayTo? (absolute baseAbsolute : Bool) (path base : List (Component Name)) :
    Option (List (Component Name)) :=
  if absolute = baseAbsolute then (way false path base).map dropDots
  else if absolute then some path
  else none

end Way

/-- The components of the way from `base` to `p`, none where there is no way. -/
def relativeTo? (base p : Path) : Option (List (Component String)) :=
  wayTo? p.isAbsolute base.isAbsolute p.components base.components

end RuleBuild.Path
