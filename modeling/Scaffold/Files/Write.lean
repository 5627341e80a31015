import Scaffold.Files.Tree
import Scaffold.Output

/-! # Writing a generated tree

Every file is written by a task of its own. A task makes the directory of its
destination, opens a temporary file there, fills it and moves it over the
destination, so that a reader sees the old file or the whole new one and never a
part. Each of these steps can be refused, and a refused task removes its temporary
file.

Tasks run side by side, and any of them may move next. What they share is the file
tree and a flag: a task that fails raises it, and a task that finds it raised before
its first step leaves everything as it is. The ends of the tasks are collected in any
order. The first failure that is collected is the answer of the write; it raises the
flag once more, for the task may have broken off before it could, and tasks that have
not begun may then be dropped. Where nothing failed the answer is the list of the
destinations in order.

A move is a function of the state below, so a run is a list of moves, and the run that
takes the tasks one after another is one of them.
-/

namespace Scaffold

/-- How far a task has come. -/
inductive Stage
  /-- The flag has not been looked at. -/
  | waiting
  /-- The flag was not raised. -/
  | begun
  /-- The directory of the destination is there. -/
  | placed
  /-- A temporary file is open, and text is missing from it. -/
  | opened (temporary : Location)
  /-- The temporary file holds the whole text. -/
  | filled (temporary : Location)
  /-- A step was refused, and the temporary file is still there. -/
  | discarding (temporary : Location) (error : Error)
  /-- A step was refused, and the flag is still to be raised. -/
  | refused (error : Error)
  /-- The temporary file has become the destination. -/
  | written
  /-- The flag was raised, and nothing was done. -/
  | skipped
  | failed (error : Error)
  /-- The task was dropped before it looked at the flag. -/
  | dropped
deriving DecidableEq

namespace Stage

/-- Whether a task has come to its end. -/
def isFinal : Stage → Bool
  | written | skipped | failed _ | dropped => true
  | _ => false

/-- The temporary file that a task has to itself. -/
def temporary? : Stage → Option Location
  | opened temporary | filled temporary | discarding temporary _ => some temporary
  | _ => none

end Stage

/-- The writing of one file. -/
structure WriteTask where
  destination : Path
  content : String
  stage : Stage
deriving DecidableEq

namespace WriteTask

def start (destination : Path) (content : String) : WriteTask :=
  ⟨destination, content, .waiting⟩

/-- The directory of the destination, as the path names it. -/
def directory (task : WriteTask) : Path :=
  match task.destination.parent? with
  | some above => if above.text.isEmpty then ⟨"."⟩ else above
  | none => ⟨"."⟩

/-- The directory of the destination and the directories above it. -/
def directories (task : WriteTask) : List Path :=
  FileTree.upwards task.directory (task.directory.components.length + 1)

/-- The text without so many characters at its end. -/
def contentWithout (task : WriteTask) (rest : Nat) : String :=
  String.ofList (task.content.toList.take (task.content.toList.length - rest))

def withStage (task : WriteTask) (stage : Stage) : WriteTask :=
  { task with stage := stage }

end WriteTask

/-- What a move of a task leaves behind: the file tree, the flag and the task itself. -/
structure Moved where
  tree : FileTree
  raised : Bool
  task : WriteTask

/-- The place that a file can be moved to by a path. A path that ends in dots names no
file, nor does one that ends in a slash. -/
def FileTree.target (tree : FileTree) (workingDirectory : Location) (p : Path) :
    Except SystemFault Location :=
  match FileTree.pathFault? p with
  | some .nulInPath => .error .invalidArgument
  | some fault => .error fault
  | none =>
    let named := (p.segments.reverse.dropWhile (· = "")).reverse
    match named.getLast? with
    | none => .error .busy
    | some last => do
      let above ← tree.follow workingDirectory named.dropLast
      let place ← tree.step above last
      if last = "." ∨ last = ".." then .error .busy
      else if named.length < p.segments.length then .error .notADirectory
      else if tree.find? place = some .directory then .error .isADirectory
      else return place

/-- Moves a file to where a path leads, in place of a file that stands there. -/
def FileTree.rename (tree : FileTree) (workingDirectory source : Location) (p : Path) :
    Except SystemFault FileTree := do
  let place ← tree.target workingDirectory p
  match tree.find? source with
  | some node => return (tree.remove source).set place node
  | none => .error .notFound

/-- How the surroundings meet a step of a task. -/
structure Surroundings where
  /-- The letters drawn for the name of a temporary file. -/
  letters : String
  /-- How much of a long step is left for later: directories that are not made yet, or
  characters that are not written yet. -/
  rest : Nat
  /-- The refusal of the step for a reason outside the tree. -/
  refusal : Option SystemFault
deriving DecidableEq

/-- The name of a temporary file. -/
def temporaryName (letters : String) : String :=
  ".tmp" ++ letters

namespace WriteTask

/-- The error of a task whose directory could not be made. -/
def directoryError (task : WriteTask) (fault : SystemFault) : Error :=
  .directoryCreate task.directory.text fault

/-- The error of a task whose destination could not be written. -/
def writeError (task : WriteTask) (fault : SystemFault) : Error :=
  .fileWrite task.destination.text fault

/-- The place for a temporary file beside the destination. -/
def temporaryPlace (task : WriteTask) (workingDirectory : Location) (letters : String)
    (tree : FileTree) : Except SystemFault Location := do
  let directory ← tree.resolve workingDirectory task.directory
  match tree.find? directory with
  | some .directory => return directory ++ [temporaryName letters]
  | some (.file _) => .error .notADirectory
  | none => .error .notFound

/-- The next step of a task. -/
def step (workingDirectory : Location) (s : Surroundings) (tree : FileTree) (raised : Bool)
    (task : WriteTask) : Moved :=
  match task.stage with
  | .waiting => ⟨tree, raised, task.withStage (if raised then .skipped else .begun)⟩
  | .begun =>
    match tree.ensureAll workingDirectory (task.directories.drop s.rest) with
    | (made, .error fault) => ⟨made, raised, task.withStage (.refused (task.directoryError fault))⟩
    | (made, .ok ()) =>
      match s.refusal with
      | some fault => ⟨made, raised, task.withStage (.refused (task.directoryError fault))⟩
      | none => ⟨made, raised, task.withStage (if s.rest = 0 then .placed else .begun)⟩
  | .placed =>
    match s.refusal with
    | some fault => ⟨tree, raised, task.withStage (.refused (task.writeError fault))⟩
    | none =>
      match task.temporaryPlace workingDirectory s.letters tree with
      | .error fault => ⟨tree, raised, task.withStage (.refused (task.writeError fault))⟩
      | .ok temporary =>
        -- A name that is taken is not used; another one is drawn.
        match tree.find? temporary with
        | some _ => ⟨tree, raised, task⟩
        | none => ⟨tree.set temporary (.file ""), raised, task.withStage (.opened temporary)⟩
  | .opened temporary =>
    match s.refusal with
    | some fault => ⟨tree, raised, task.withStage (.discarding temporary (task.writeError fault))⟩
    | none =>
      ⟨tree.set temporary (.file (task.contentWithout s.rest)), raised,
        task.withStage (if s.rest = 0 then .filled temporary else .opened temporary)⟩
  | .filled temporary =>
    match s.refusal with
    | some fault => ⟨tree, raised, task.withStage (.discarding temporary (task.writeError fault))⟩
    | none =>
      match tree.rename workingDirectory temporary task.destination with
      | .error fault =>
        ⟨tree, raised, task.withStage (.discarding temporary (task.writeError fault))⟩
      | .ok renamed => ⟨renamed, raised, task.withStage .written⟩
  | .discarding temporary e => ⟨tree.remove temporary, raised, task.withStage (.refused e)⟩
  | .refused e => ⟨tree, true, task.withStage (.failed e)⟩
  | .written | .skipped | .failed _ | .dropped => ⟨tree, raised, task⟩

/-- Ends a task in the middle of its work. Its temporary file goes with it, and the flag
stays as it is. -/
def breakOff (reason : String) (tree : FileTree) (raised : Bool) (task : WriteTask) : Moved :=
  if task.stage.isFinal then ⟨tree, raised, task⟩
  else
    ⟨(task.stage.temporary?.map tree.remove).getD tree, raised,
      task.withStage (.failed (.internal (.taskBroken reason)))⟩

/-- Drops a task unless it has looked at the flag. -/
def drop (tree : FileTree) (raised : Bool) (task : WriteTask) : Moved :=
  ⟨tree, raised, if task.stage = .waiting then task.withStage .dropped else task⟩

end WriteTask

/-- The tasks of one write in the middle of their work. -/
structure WriteRun where
  tree : FileTree
  tasks : List WriteTask
  /-- Whether a failure is known. -/
  raised : Bool
  /-- The tasks whose ends have not been collected. -/
  pending : List Nat
  /-- The destinations written, in the order in which the ends were collected. -/
  collected : List Path
  /-- The failure that was collected. -/
  failure : Option Error

/-- Who moves next, and how the surroundings meet it. -/
inductive Move
  | step (task : Nat) (s : Surroundings)
  | breakOff (task : Nat) (reason : String)
  | collect (task : Nat)
  | drop (task : Nat)
deriving DecidableEq

namespace WriteRun

def start (tree : FileTree) (tasks : List WriteTask) : WriteRun :=
  ⟨tree, tasks, false, List.range tasks.length, [], none⟩

/-- Lets one task move. -/
def onTask (run : WriteRun) (i : Nat) (f : FileTree → Bool → WriteTask → Moved) : WriteRun :=
  match run.tasks[i]? with
  | none => run
  | some task =>
    let moved := f run.tree run.raised task
    { run with
      tree := moved.tree
      raised := moved.raised
      tasks := run.tasks.set i moved.task }

/-- Takes note of how a task ended, if it has. After a failure nothing is collected. -/
def collect (run : WriteRun) (i : Nat) : WriteRun :=
  match run.failure, run.tasks[i]? with
  | none, some task =>
    if i ∈ run.pending then
      match task.stage with
      | .written =>
        { run with
          pending := run.pending.filter (· ≠ i)
          collected := run.collected ++ [task.destination] }
      | .skipped => { run with pending := run.pending.filter (· ≠ i) }
      | .failed e => { run with raised := true, failure := some e }
      | _ => run
    else run
  | _, _ => run

def move (workingDirectory : Location) (run : WriteRun) : Move → WriteRun
  | .step i s => run.onTask i (WriteTask.step workingDirectory s)
  | .breakOff i reason => run.onTask i (WriteTask.breakOff reason)
  | .collect i => run.collect i
  | .drop i => if run.failure.isSome then run.onTask i WriteTask.drop else run

/-- Makes moves one after another. -/
def play (workingDirectory : Location) (run : WriteRun) (moves : List Move) : WriteRun :=
  moves.foldl (move workingDirectory) run

/-- Whether all ends have been collected, or a failure among them. -/
def hasAnswered (run : WriteRun) : Bool :=
  run.failure.isSome || run.pending.isEmpty

/-- Letters for the name of a temporary file that nothing in a tree has: longer than
every name. -/
def freshLetters (tree : FileTree) : String :=
  let longest := (tree.entries.map fun e => (e.1.map fun s => s.toList.length).foldl max 0).foldl max 0
  String.ofList (List.replicate longest 'x')

/-- Lets one task take its next step in quiet surroundings. -/
def quietly (workingDirectory : Location) (run : WriteRun) (i : Nat) : WriteRun :=
  run.move workingDirectory (.step i ⟨freshLetters run.tree, 0, none⟩)

/-- The number of steps from the start of a task to its end, if they are quiet. -/
def stepsOfTask : Nat := 7

/-- Lets a task come to its end and collects it. -/
def finish (workingDirectory : Location) (run : WriteRun) (i : Nat) : WriteRun :=
  ((List.replicate stepsOfTask i).foldl (quietly workingDirectory) run).move workingDirectory
    (.collect i)

/-- Lets every task come to its end before the next one moves. -/
def inTurn (workingDirectory : Location) (run : WriteRun) : WriteRun :=
  (List.range run.tasks.length).foldl (finish workingDirectory) run

end WriteRun

/-- The rank of a component among those of another kind. -/
def Component.rank : Component → Nat
  | root => 0
  | current => 1
  | parent => 2
  | name _ => 3

/-- Names are compared by their text, and other components by their kind. -/
def Component.isBefore (a b : Component) : Bool :=
  a.rank < b.rank || (a.rank == b.rank && a.text < b.text)

/-- Paths are compared component by component. -/
def Path.componentsLe : List Component → List Component → Bool
  | [], _ => true
  | _ :: _, [] => false
  | a :: as, b :: bs => a.isBefore b || (a == b && componentsLe as bs)

/-- Paths in the order of their components. -/
def Path.sort (paths : List Path) : List Path :=
  paths.mergeSort fun p q => componentsLe p.components q.components

namespace WriteRun

/-- The answer of a write that is over. -/
def answer (run : WriteRun) : Except Error (List Path) :=
  match run.failure with
  | some e => .error e
  | none => .ok (Path.sort run.collected)

/-- The answer of a write, as soon as there is one. -/
def answer? (run : WriteRun) : Option (Except Error (List Path)) :=
  if run.hasAnswered then some run.answer else none

end WriteRun

/-- The tasks that write some files below a root. -/
def writeTasks (root : Path) (files : List GeneratedFile) : List WriteTask :=
  files.map fun f => .start (root.join f.path) f.content

/-- The write of some files below a root before its first move. -/
def WriteRun.ofFiles (tree : FileTree) (root : Path) (files : List GeneratedFile) : WriteRun :=
  .start tree (writeTasks root files)

/-- Writes files below a root. -/
def writeAll (tree : FileTree) (workingDirectory : Location) (root : Path)
    (files : List GeneratedFile) : FileTree × Except Error (List Path) :=
  let run := (WriteRun.ofFiles tree root files).inTurn workingDirectory
  (run.tree, run.answer)

/-- Writes one file below a root. -/
def writeFile (tree : FileTree) (workingDirectory : Location) (root : Path)
    (file : GeneratedFile) : FileTree × Except Error Path :=
  match writeAll tree workingDirectory root [file] with
  | (after, .ok _) => (after, .ok (root.join file.path))
  | (after, .error e) => (after, .error e)

/-- Generates the files of a document and writes them by some moves, unless nothing is to
be written. There is no result as long as the write has not answered. -/
def generateAndWriteBy (moves : List Move) (tree : FileTree) (workingDirectory : Location)
    (options : Document.Options) (config : Config) (env : Document.Environment)
    (workingPath : Path) : FileTree × Option (Except Error Output) :=
  match generate options config env workingPath with
  | .error e => (tree, some (.error e))
  | .ok output =>
    if config.dryRun then (tree, some (.ok output))
    else
      let run := (WriteRun.ofFiles tree config.outputDir output.files).play workingDirectory moves
      (run.tree, run.answer?.map fun answer => answer.map fun _ => output)

/-- Generates the files of a document and writes them, unless nothing is to be
written. -/
def generateAndWrite (tree : FileTree) (workingDirectory : Location) (options : Document.Options)
    (config : Config) (env : Document.Environment) (workingPath : Path) :
    FileTree × Except Error Output :=
  match generate options config env workingPath with
  | .error e => (tree, .error e)
  | .ok output =>
    if config.dryRun then (tree, .ok output)
    else
      match writeAll tree workingDirectory config.outputDir output.files with
      | (after, .ok _) => (after, .ok output)
      | (after, .error e) => (after, .error e)

end Scaffold
