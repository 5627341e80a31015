import Scaffold.Error
import Scaffold.Path.Basic

/-! # File trees

A file tree says what stands at which location: nothing, a directory, or a file with
its text. A location is the list of names on the way down from the root of the tree;
the root itself is always a directory.

A path leads to a location step by step, and a step can only be taken from a
directory that is there. Two dots therefore need the directory that they lead out
of, and a slash at the end of a path asks for a directory too.
-/

namespace Scaffold

/-- The names on the way down from the root. -/
abbrev Location := List String

/-- What stands at a location. -/
inductive Node
  | directory
  | file (content : String)
deriving DecidableEq, Repr

/-- The locations at which something stands, apart from the root. -/
structure FileTree where
  entries : List (Location × Node)
deriving DecidableEq, Repr

namespace FileTree

def empty : FileTree := ⟨[]⟩

/-- What stands at a location. -/
def find? (t : FileTree) (place : Location) : Option Node :=
  if place.isEmpty then some .directory else t.entries.lookup place

/-- Puts something at a location, in place of what stands there. -/
def set (t : FileTree) (place : Location) (node : Node) : FileTree :=
  ⟨t.entries.filter (fun e => e.1 ≠ place) ++ [(place, node)]⟩

/-- Takes away what stands at a location. -/
def remove (t : FileTree) (place : Location) : FileTree :=
  ⟨t.entries.filter fun e => e.1 ≠ place⟩

/-- Taking one key away leaves what stands under the others. -/
theorem lookup_filter_ne (entries : List (Location × Node)) (place other : Location) :
    (entries.filter fun e => e.1 ≠ place).lookup other =
      if other = place then none else entries.lookup other := by
  induction entries with
  | nil => simp
  | cons e rest ih =>
    obtain ⟨location, node⟩ := e
    rw [List.filter_cons]
    by_cases hl : location = place
    · subst hl
      rw [if_neg (by simp), ih]
      split
      · rfl
      · next hp => simp [List.lookup_cons, beq_eq_false_iff_ne.2 hp]
    · rw [if_pos (by simp [hl]), List.lookup_cons, List.lookup_cons, ih]
      by_cases hp : other = location
      · subst hp; simp [hl]
      · simp [beq_eq_false_iff_ne.2 hp]

theorem find?_remove (t : FileTree) {place : Location} (h : place ≠ []) (other : Location) :
    (t.remove place).find? other = if other = place then none else t.find? other := by
  by_cases ho : other = []
  · subst ho
    simp [find?, Ne.symm h]
  · simp only [find?, List.isEmpty_iff, ho, if_false, remove]
    exact lookup_filter_ne t.entries place other

theorem find?_set (t : FileTree) {place : Location} (h : place ≠ []) (node : Node)
    (other : Location) :
    (t.set place node).find? other = if other = place then some node else t.find? other := by
  have hr := find?_remove t h other
  by_cases ho : other = []
  · subst ho
    simp [find?, Ne.symm h]
  · simp only [find?, List.isEmpty_iff, ho, if_false, remove] at hr
    simp only [find?, List.isEmpty_iff, ho, if_false, set, List.lookup_append, hr]
    by_cases hp : other = place
    · subst hp; simp
    · simp [hp, List.lookup_cons, beq_eq_false_iff_ne.2 hp]

/-- The longest name that a file may have, in bytes. -/
def longestName : Nat := 255

/-- Takes one step from a location. -/
def step (t : FileTree) (here : Location) (segment : String) :
    Except SystemFault Location :=
  match t.find? here with
  | none => .error .notFound
  | some (.file _) => .error .notADirectory
  | some .directory =>
    if Path.isIdle segment then .ok here
    else if segment = ".." then .ok here.dropLast
    else if longestName < segment.utf8ByteSize then .error .nameTooLong
    else .ok (here ++ [segment])

/-- Takes the steps of a path, one for each stretch between its slashes. An empty first
stretch starts from the root. -/
def follow (t : FileTree) (workingDirectory : Location) :
    List String → Except SystemFault Location
  | "" :: rest => rest.foldlM t.step []
  | segments => segments.foldlM t.step workingDirectory

/-- The longest path that is followed, in bytes. -/
def longestPath : Nat := 4095

/-- Whether a path holds the character that ends a path where the system reads it. -/
def holdsNul (p : Path) : Bool :=
  p.text.toList.contains '\x00'

/-- The fault of a path in itself, whatever the tree holds. -/
def pathFault? (p : Path) : Option SystemFault :=
  if holdsNul p then some .nulInPath
  else if p.text.isEmpty then some .notFound
  else if longestPath < p.text.utf8ByteSize then some .nameTooLong
  else none

/-- The location that a path leads to from a working directory, whether or not
something stands there. -/
def resolve (t : FileTree) (workingDirectory : Location) (p : Path) :
    Except SystemFault Location :=
  match pathFault? p with
  | some fault => .error fault
  | none => t.follow workingDirectory p.segments

/-- What a path leads to. -/
def lookup (t : FileTree) (workingDirectory : Location) (p : Path) : Except SystemFault Node := do
  let place ← t.resolve workingDirectory p
  match t.find? place with
  | some node => return node
  | none => .error .notFound

def isDirectory (t : FileTree) (workingDirectory : Location) (p : Path) : Bool :=
  match t.lookup workingDirectory p with
  | .ok .directory => true
  | _ => false

/-- The text of the file that a path leads to. -/
def read (t : FileTree) (workingDirectory : Location) (p : Path) : Except SystemFault String := do
  match ← t.lookup workingDirectory p with
  | .file content => return content
  | .directory => .error .isADirectory

/-- Makes one directory. -/
def makeDirectory (t : FileTree) (workingDirectory : Location) (p : Path) :
    Except SystemFault FileTree := do
  let place ← t.resolve workingDirectory p
  match t.find? place with
  | some _ => .error .exists
  | none => return t.set place .directory

/-- A path and the paths above it, up to a given number of them. -/
def upwards (p : Path) : Nat → List Path
  | 0 => []
  | more + 1 =>
    p :: match p.parent? with
      | some above => upwards above more
      | none => []

/-- Makes the first of some paths a directory, and the ones behind it first where they
are missing. A path that is a directory already is no failure. What was made before
a failure stays. -/
def ensureAll (t : FileTree) (workingDirectory : Location) :
    List Path → FileTree × Except SystemFault Unit
  | [] => (t, .ok ())
  | p :: above =>
    if p.text.isEmpty then (t, .ok ())
    else
      match t.makeDirectory workingDirectory p with
      | .ok made => (made, .ok ())
      | .error .notFound =>
        match t.ensureAll workingDirectory above with
        | (below, .error fault) => (below, .error fault)
        | (below, .ok ()) =>
          match below.makeDirectory workingDirectory p with
          | .ok made => (made, .ok ())
          | .error fault =>
            (below, if below.isDirectory workingDirectory p then .ok () else .error fault)
      | .error fault =>
        (t, if t.isDirectory workingDirectory p then .ok () else .error fault)

/-- Makes a path a directory, with all directories above it. -/
def ensureDirectory (t : FileTree) (workingDirectory : Location) (p : Path) :
    FileTree × Except SystemFault Unit :=
  t.ensureAll workingDirectory (upwards p (p.components.length + 1))

end FileTree

end Scaffold
