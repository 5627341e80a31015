import Scaffold.CommandLine.Run

/-! # The program

The outermost layer: it asks the system for what the library needs, hands it over, and
carries out what comes back. What the program does and says is decided elsewhere; here
stands only how the system is asked.
-/

namespace Scaffold.CommandLine

open Document (Environment Options)

/-- The fault that an error of the system stands for. -/
def faultOf : IO.Error → SystemFault
  | .noFileOrDirectory .. => .notFound
  | .alreadyExists .. => .exists
  | .inappropriateType _ code _ => if code = 21 then .isADirectory else .notADirectory
  | .invalidArgument _ 36 _ => .nameTooLong
  | .invalidArgument .. => .invalidArgument
  | .resourceBusy .. => .busy
  | e => .other (toString e)

/-- An action of the system, with the error that its failure means. -/
def attempt (error : SystemFault → Error) (action : IO α) : ExceptT Error IO α := do
  match ← action.toBaseIO with
  | .ok a => return a
  | .error e => throw (error (faultOf e))

/-- An environment in which the given variables can be looked up. -/
def environmentOf (names : List String) : IO Environment := do
  let pairs ← names.mapM fun name => do return (name, ← IO.getEnv name)
  return fun name => (pairs.lookup name).join

/-- The variables that stand in for arguments. -/
def argumentVariables : List String := ["NESTBASE_SCHEMA", "NESTBASE_OUTPUT"]

/-- The variables that a document mentions. -/
def variablesOf (options : Options) : List String :=
  (options.generator :: options.otherGenerators).filterMap fun g =>
    g.output.bind Document.EnvValue.fromEnvVar

/-- Refuses a path that the system would cut short. -/
def refuseNul (p : Path) (fault : SystemFault) : IO Unit :=
  if FileTree.holdsNul p then throw (.userError fault.describe) else pure ()

/-- What stands at a path. -/
def find (p : Path) : IO (Except SystemFault Node) := do
  if FileTree.holdsNul p then return .error .nulInPath
  match ← (IO.FS.readBinFile p.text).toBaseIO with
  | .ok bytes =>
    match String.fromUTF8? bytes with
    | some text => return .ok (.file text)
    | none => return .error (.other "stream did not contain valid UTF-8")
  | .error e =>
    match faultOf e with
    | .isADirectory => return .ok .directory
    | fault => return .error fault

def isDirectory (p : Path) : IO Bool := do
  ((← IO.currentDir) / p.text).isDir

/-- Makes the first of some paths a directory, and the ones behind it first where they
are missing. -/
def ensureAll : List Path → IO Unit
  | [] => pure ()
  | p :: above => do
    unless p.text.isEmpty do
      try
        IO.FS.createDir p.text
      catch
        | .noFileOrDirectory .. => do
          ensureAll above
          make p
        | e => unless ← isDirectory p do throw e
where
  /-- Makes one path a directory unless it is one. -/
  make (p : Path) : IO Unit := do
    try
      IO.FS.createDir p.text
    catch e =>
      unless ← isDirectory p do throw e

/-- Writes a file under a name that is still free, and then moves it to its destination. -/
def replace (directory destination : Path) (content : String) : IO Unit := do
  refuseNul destination .invalidArgument
  let temporary := directory.join ⟨".tmp" ++ toString (← IO.monoNanosNow)⟩
  let handle ← IO.FS.Handle.mk temporary.text .writeNew
  try
    handle.putStr content
    handle.flush
    IO.FS.rename temporary.text destination.text
  catch e => do
    IO.FS.removeFile temporary.text
    throw e

/-- Carries out the writing of one file. -/
def save (task : WriteTask) : ExceptT Error IO Unit := do
  let directory := task.directory
  attempt (.directoryCreate directory.text) do
    refuseNul directory .nulInPath
    ensureAll (FileTree.upwards directory (directory.components.length + 1))
  attempt (.fileWrite task.destination.text) (replace directory task.destination task.content)

/-- Carries out a command line. -/
def carryOut (a : Arguments) : ExceptT Failure IO Report := do
  let document := a.document.getD ""
  let found ← find ⟨document⟩
  let options ← ofExcept (.loading document) (Options.ofNode ⟨document⟩ found)
  let env ← environmentOf (argumentVariables ++ variablesOf options)
  let config ← ofExcept .configuring (configure a options env)
  let here := toString (← IO.currentDir)
  let output ← ofExcept .generating (generate options config env ⟨here⟩)
  unless config.dryRun do
    (writeTasks config.outputDir output.files).forM fun task =>
      (save task).adapt (Failure.mk .generating)
  return ⟨.ofOutput output config, output.warnings⟩
where
  /-- A result, with what the run was doing if it is an error. -/
  ofExcept {α : Type} (activity : Activity) (r : Except Error α) : ExceptT Failure IO α :=
    ExceptT.mk (pure (r.mapError (Failure.mk activity)))

/-- Everything that the program says to a command line, and its exit code. -/
def respond (argv : List String) : IO Result := do
  match Arguments.read argv (← environmentOf argumentVariables) with
  | .error refusal => return refusal.result
  | .ok a => return resultOf (← (carryOut a).run)

end Scaffold.CommandLine

def main (argv : List String) : IO UInt32 := do
  let result ← Scaffold.CommandLine.respond argv
  IO.print result.out
  IO.eprint result.err
  return result.exitCode.toUInt32
