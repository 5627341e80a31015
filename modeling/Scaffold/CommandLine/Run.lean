import Scaffold.CommandLine.Arguments
import Scaffold.Files.Write
import Scaffold.Summary

/-! # Running

A run loads the document, works out the configuration, generates, and writes unless
nothing is to be written. A failure says which of these it happened in. The screen
shows a heading before anything is done, and at the end the summary.
-/

namespace Scaffold

open Document (Environment Options)

/-- The document at a path, given what was found there. A fault of the path itself
means that there is no document; any other fault means that it cannot be read. -/
def Document.Options.ofNode (p : Path) : Except SystemFault Node → Except Error Options
  | .error (.other reason) => .error (.fileRead p.text (.system (.other reason)))
  | .error _ => .error (.schemaNotFound p.text)
  | .ok .directory => .error (.fileRead p.text (.system .isADirectory))
  | .ok (.file text) => Options.ofFile p text

/-- Loads the document at a path of a tree. -/
def FileTree.load (tree : FileTree) (workingDirectory : Location) (p : Path) :
    Except Error Options :=
  Options.ofNode p (tree.lookup workingDirectory p)

/-- The path of a location. -/
def Location.path (place : Location) : Path :=
  ⟨"/" ++ "/".intercalate place⟩

namespace CommandLine

/-- What a run was doing. -/
inductive Activity
  | loading (document : String)
  | configuring
  | generating
deriving DecidableEq, Repr

def Activity.complaint : Activity → String
  | loading document => "failed to load '" ++ document ++ "'"
  | configuring => "invalid generator configuration"
  | generating => "code generation failed"

/-- An error, and what the run was doing. -/
structure Failure where
  activity : Activity
  error : Error
deriving DecidableEq

/-- What is said of a failure: what the run was doing, the error, and the cause of the
error if there is one. -/
def Failure.message (f : Failure) : String :=
  ": ".intercalate ([f.activity.complaint, f.error.message] ++ f.error.cause?.toList)

/-- The configuration that a command line asks for with a document. -/
def configure (a : Arguments) (options : Options) (env : Environment) : Except Error Config :=
  (Config.ofOptions options env).map a.overrides.applyTo

/-- What a successful run hands over. -/
structure Report where
  summary : Summary
  warnings : List Warning
deriving DecidableEq, Repr

/-- Carries out a command line on a file tree. -/
def run (tree : FileTree) (workingDirectory : Location) (a : Arguments) (env : Environment) :
    FileTree × Except Failure Report :=
  let document := a.document.getD ""
  match tree.load workingDirectory ⟨document⟩ with
  | .error e => (tree, .error ⟨.loading document, e⟩)
  | .ok options =>
    match configure a options env with
    | .error e => (tree, .error ⟨.configuring, e⟩)
    | .ok config =>
      match generateAndWrite tree workingDirectory options config env workingDirectory.path with
      | (after, .error e) => (after, .error ⟨.generating, e⟩)
      | (after, .ok output) => (after, .ok ⟨.ofOutput output config, output.warnings⟩)

/-- The name and version that the program goes by. -/
def programName : String := "nestbase"

def programVersion : String := "0.1.0"

/-- What the program shows first. -/
def heading : String :=
  programName ++ " v" ++ programVersion ++ "\n\n"

def usage : String :=
  "Generate NestJS base classes from a Prisma data model\n\n" ++
    "Usage: nestbase [OPTIONS] <SCHEMA>\n"

/-- What the program shows of a successful run. -/
def Report.screen (r : Report) : String :=
  r.summary.display ++ "\n" ++
    if r.summary.dryRun then "Dry run: pass --dry-run=false to write the files.\n" else ""

/-- What the program leaves behind. -/
structure Result where
  exitCode : Nat
  out : String
  err : String
deriving DecidableEq, Repr

/-- What the program says of a command line that it does not carry out. -/
def Refusal.result : Refusal → Result
  | helpWanted => ⟨0, usage, ""⟩
  | versionWanted => ⟨0, programName ++ " " ++ programVersion ++ "\n", ""⟩
  | _ => ⟨2, "", usage⟩

/-- What the program says of a command line that it carries out. -/
def resultOf : Except Failure Report → Result
  | .error f => ⟨1, heading, "error: " ++ f.message ++ "\n"⟩
  | .ok r =>
    ⟨0, heading ++ r.screen,
      String.join (r.warnings.map fun w => "warning: " ++ w.message ++ "\n")⟩

/-- The whole program. -/
def program (tree : FileTree) (workingDirectory : Location) (argv : List String)
    (env : Environment) : FileTree × Result :=
  match Arguments.read argv env with
  | .error refusal => (tree, refusal.result)
  | .ok a =>
    let (after, outcome) := run tree workingDirectory a env
    (after, resultOf outcome)

end CommandLine

end Scaffold
