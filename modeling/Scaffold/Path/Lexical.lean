import Scaffold.Error
import Scaffold.Path.Basic

/-! # Paths without a file system

Two paths can be compared without looking at the files they name. A pair of dots
then takes back the component before it, and a path stands for what is left. To
get from one place to another one climbs out of the components that only the first
has and descends into those that only the second has.

Where one path is absolute and the other relative, the relative one is first read
from the working directory.
-/

namespace Scaffold.Path

/-- Takes one step from a place, which is given with its last component first. Two
dots take back the last component; where nothing is left to take back they stay. -/
def walk (place : List Component) (step : Component) : List Component :=
  match step with
  | .current => place
  | .parent =>
    match place with
    | [] => [.parent]
    | .parent :: rest => .parent :: .parent :: rest
    | _ :: rest => rest
  | step => step :: place

/-- The components left when every pair of dots has taken back the one before it. -/
def normal (components : List Component) : List Component :=
  (components.foldl walk []).reverse

/-- The components of a path read from a working directory. -/
def absoluteComponents (workingDirectory p : Path) : Except Error (List Component) :=
  if p.text.isEmpty then .error (.system .emptyPath)
  else if p.isAbsolute then .ok p.components
  else .ok (workingDirectory.components ++ p.components)

/-- The number of components that two places have in common at their beginning. -/
def commonLength : List Component → List Component → Nat
  | a :: as, b :: bs => if a = b then commonLength as bs + 1 else 0
  | _, _ => 0

/-- The steps from one place to another, both given by their components. -/
def stepsBetween (source target : List Component) : List Component :=
  let common := commonLength source target
  List.replicate (source.length - common) .parent ++ target.drop common

/-- Steps as a text; no step at all is a dot. -/
def stepsText (steps : List Component) : String :=
  if steps.isEmpty then "." else "/".intercalate (steps.map Component.text)

/-- The way from one path to another, as a text. -/
def relative (workingDirectory source target : Path) : Except Error String := do
  let (source, target) ←
    if source.isAbsolute = target.isAbsolute then
      pure (source.components, target.components)
    else
      let source ← absoluteComponents workingDirectory source
      let target ← absoluteComponents workingDirectory target
      pure (source, target)
  return stepsText (stepsBetween (normal source) (normal target))

end Scaffold.Path
