/-! # Paths

A path is a text, and what it means is its list of components. Repeated slashes,
slashes at the end and single dots inside a path carry no meaning and are no
components; a single dot in front of a relative path and every pair of dots are.
Joining and taking the parent work on the text, so that what is kept of a path
reads as it was written.
-/

namespace Scaffold

/-- A path as it was written. -/
structure Path where
  text : String
deriving DecidableEq, Repr

/-- A step of a path. -/
inductive Component
  /-- The slash in front of an absolute path. -/
  | root
  /-- The dot in front of a relative path. -/
  | current
  /-- A pair of dots. -/
  | parent
  | name (text : String)
deriving DecidableEq, Repr

def Component.text : Component → String
  | root => "/"
  | current => "."
  | parent => ".."
  | name text => text

namespace Path

/-- The stretches of a path between its slashes. -/
def segments (p : Path) : List String :=
  (p.text.toList.splitOn '/').map String.ofList

/-- Whether a stretch behind the beginning of a path carries no meaning. -/
def isIdle (segment : String) : Bool :=
  segment == "" || segment == "."

/-- The component that a stretch behind the beginning of a path stands for. -/
def component? (segment : String) : Option Component :=
  if isIdle segment then none
  else if segment = ".." then some .parent
  else some (.name segment)

/-- A path as its beginning, if that is a component of its own, and the stretches
behind it. -/
def split (p : Path) : Option Component × List String :=
  match p.segments with
  | "" :: next :: body => (some .root, next :: body)
  | "." :: body => (some .current, body)
  | body => (none, body)

/-- The components of a path. -/
def components (p : Path) : List Component :=
  p.split.1.toList ++ p.split.2.filterMap component?

def isAbsolute (p : Path) : Bool :=
  p.components.head? = some .root

/-- A path put together from a beginning and the stretches behind it. -/
def unsplit : Option Component → List String → Path
  | some .root, body => ⟨"/" ++ "/".intercalate body⟩
  | some _, body => ⟨"/".intercalate ("." :: body)⟩
  | none, body => ⟨"/".intercalate body⟩

/-- Drops the stretches without meaning from the end. -/
def trimEnd (body : List String) : List String :=
  (body.reverse.dropWhile isIdle).reverse

/-- A path without its last component. A path that is empty or only a slash has no
parent; the parent of a single relative component is the empty path. -/
def parent? (p : Path) : Option Path :=
  let (start, body) := p.split
  match trimEnd body with
  | [] => if start = some .current then some ⟨""⟩ else none
  | kept => some (unsplit start (trimEnd kept.dropLast))

/-- Whether the last components of a path are the given ones. -/
def endsWith (p : Path) (last : List Component) : Bool :=
  last.isSuffixOf p.components

/-- A path seen from another one. An absolute path does not depend on where it is
seen from. -/
def join (base : Path) (p : Path) : Path :=
  if p.text.toList.head? = some '/' then p
  else if base.text.isEmpty || base.text.toList.getLast? = some '/' then
    ⟨base.text ++ p.text⟩
  else ⟨base.text ++ "/" ++ p.text⟩

/-- The components of a path with slashes between them. -/
def display (p : Path) : String :=
  "/".intercalate (p.components.map Component.text)

end Path

end Scaffold
