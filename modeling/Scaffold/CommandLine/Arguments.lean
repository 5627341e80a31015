import Scaffold.Config

/-! # Arguments

The command line names the document and may override the settings in it. Arguments
are read from left to right. An option that takes a value in a place of its own
leaves that value pending, and the pending value is judged when the next option or
the next operand is accepted, or at the end. What is refused right away therefore
comes before a fault of the value pending, even though it stands behind it.

The document and the output directory may come from the environment instead. The
environment counts only where the command line is silent, and is looked at after it.
-/

namespace Scaffold.CommandLine

open Document (Environment)

/-- The options that are on, off or not given. -/
inductive Switch
  | dryRun
  | useSwagger
  | separateRelationFields
  | makeIndexFile
deriving DecidableEq, Repr

/-- The options that the command line knows. -/
inductive Flag
  | output
  | switch (s : Switch)
  | verbose
  | help
  | version
deriving DecidableEq, Repr

/-- The option of a long name. -/
def Flag.ofLong? (name : String) : Option Flag :=
  if name = "output" then some .output
  else if name = "dry-run" then some (.switch .dryRun)
  else if name = "use-swagger" then some (.switch .useSwagger)
  else if name = "separate-relation-fields" then some (.switch .separateRelationFields)
  else if name = "make-index-file" then some (.switch .makeIndexFile)
  else if name = "verbose" then some .verbose
  else if name = "help" then some .help
  else if name = "version" then some .version
  else none

/-- The option of a letter. -/
def Flag.ofShort? (letter : Char) : Option Flag :=
  if letter = 'o' then some .output
  else if letter = 'v' then some .verbose
  else if letter = 'h' then some .help
  else if letter = 'V' then some .version
  else none

/-- Why a command line is not carried out. -/
inductive Refusal
  | missingDocument
  | unknownArgument
  | invalidValue
  /-- An option is given twice. -/
  | conflict
  /-- An option without a value is given one. -/
  | unexpectedValue
  | helpWanted
  | versionWanted
deriving DecidableEq, Repr

/-- What a command line asks for. -/
structure Arguments where
  document : Option String
  output : Option String
  dryRun : Option Bool
  useSwagger : Option Bool
  separateRelationFields : Option Bool
  makeIndexFile : Option Bool
  verbose : Bool
deriving DecidableEq, Repr

namespace Arguments

def none : Arguments :=
  ⟨.none, .none, .none, .none, .none, .none, false⟩

def getSwitch (a : Arguments) : Switch → Option Bool
  | .dryRun => a.dryRun
  | .useSwagger => a.useSwagger
  | .separateRelationFields => a.separateRelationFields
  | .makeIndexFile => a.makeIndexFile

def setSwitch (a : Arguments) (s : Switch) (b : Bool) : Arguments :=
  match s with
  | .dryRun => { a with dryRun := some b }
  | .useSwagger => { a with useSwagger := some b }
  | .separateRelationFields => { a with separateRelationFields := some b }
  | .makeIndexFile => { a with makeIndexFile := some b }

/-- The settings that a command line insists on. -/
def overrides (a : Arguments) : Overrides where
  outputDir := a.output.map Path.mk
  makeIndexFile := a.makeIndexFile
  dryRun := a.dryRun
  separateRelationFields := a.separateRelationFields
  useSwagger := a.useSwagger

/-- Accepts the document; an empty text names none. -/
def acceptDocument (a : Arguments) (text : String) : Except Refusal Arguments :=
  if a.document.isSome then .error .conflict
  else if text.isEmpty then .error .invalidValue
  else .ok { a with document := some text }

/-- Accepts the output directory; an empty text names none. -/
def acceptOutput (a : Arguments) (text : String) : Except Refusal Arguments :=
  if a.output.isSome then .error .conflict
  else if text.isEmpty then .error .invalidValue
  else .ok { a with output := some text }

/-- Accepts an option that is on or off; without a value it is on. -/
def acceptSwitch (a : Arguments) (s : Switch) (value : Option String) :
    Except Refusal Arguments :=
  if (a.getSwitch s).isSome then .error .conflict
  else
    match value with
    | .none | some "true" => .ok (a.setSwitch s true)
    | some "false" => .ok (a.setSwitch s false)
    | some _ => .error .invalidValue

def acceptVerbose (a : Arguments) : Except Refusal Arguments :=
  if a.verbose then .error .conflict else .ok { a with verbose := true }

end Arguments

/-- A value that has not been judged. -/
inductive Pending
  | nothing
  | document (text : String)
  /-- The output directory is due, and may or may not have come. -/
  | output (text : Option String)
deriving DecidableEq, Repr

/-- The reader between two arguments. -/
structure Parsing where
  accepted : Arguments
  pending : Pending
  /-- Whether an operand has come. -/
  hasOperand : Bool
  /-- Whether everything that follows is an operand. -/
  operandsOnly : Bool
deriving DecidableEq, Repr

namespace Parsing

def start : Parsing :=
  ⟨.none, .nothing, false, false⟩

/-- Judges the value pending. -/
def settle (p : Parsing) : Except Refusal Parsing :=
  let settled (accepted : Arguments) : Parsing := { p with accepted := accepted, pending := .nothing }
  match p.pending with
  | .nothing => .ok p
  | .document text => (p.accepted.acceptDocument text).map settled
  | .output none => .error .invalidValue
  | .output (some text) => (p.accepted.acceptOutput text).map settled

/-- Settles, and then changes what is accepted. -/
def thenAccept (p : Parsing) (accept : Arguments → Except Refusal Arguments) :
    Except Refusal Parsing := do
  let p ← p.settle
  let accepted ← accept p.accepted
  return { p with accepted := accepted }

/-- Accepts an option with the value attached to it, if there is one. -/
def option (p : Parsing) (flag : Flag) (value : Option String) : Except Refusal Parsing :=
  match flag, value with
  | .output, some text => p.thenAccept fun a => a.acceptOutput text
  | .output, none => do
    let p ← p.settle
    return { p with pending := .output none }
  | .switch s, value => p.thenAccept fun a => a.acceptSwitch s value
  | _, some _ => .error .unexpectedValue
  | .verbose, none => p.thenAccept Arguments.acceptVerbose
  | .help, none => p.thenAccept fun _ => .error .helpWanted
  | .version, none => p.thenAccept fun _ => .error .versionWanted

/-- Takes an option by its long name, with a value behind an equals sign. -/
def long (p : Parsing) (body : List Char) : Except Refusal Parsing :=
  let name := String.ofList (body.takeWhile (· ≠ '='))
  let value :=
    match body.dropWhile (· ≠ '=') with
    | [] => none
    | _ :: value => some (String.ofList value)
  match Flag.ofLong? name with
  | some flag => p.option flag value
  | none => .error .unknownArgument

/-- The value attached to a letter, with or without an equals sign. -/
def attached? : List Char → Option String
  | [] => none
  | '=' :: value => some (String.ofList value)
  | value => some (String.ofList value)

/-- Takes options by their letters. What stands behind the letter of an option that
takes a value is that value. -/
def short (p : Parsing) : List Char → Except Refusal Parsing
  | [] => .ok p
  | letter :: rest =>
    match Flag.ofShort? letter with
    | none => .error .unknownArgument
    | some .output => p.option .output (attached? rest)
    | some flag => do
      let p ← p.option flag none
      p.short rest

/-- Takes an operand. There is room for one. -/
def operand (p : Parsing) (text : String) : Except Refusal Parsing :=
  if p.hasOperand then .error .unknownArgument
  else do
    let p ← p.settle
    return { p with pending := .document text, hasOperand := true }

/-- Takes an argument that is no option: a value that is due, or an operand. -/
def plain (p : Parsing) (text : String) : Except Refusal Parsing :=
  match p.pending with
  | .output none => .ok { p with pending := .output (some text) }
  | _ => p.operand text

/-- Takes one argument. -/
def argument (p : Parsing) (text : String) : Except Refusal Parsing :=
  if p.operandsOnly then p.operand text
  else
    match text.toList with
    | ['-', '-'] => .ok { p with operandsOnly := true }
    | '-' :: '-' :: body => p.long body
    | '-' :: letter :: letters => p.short (letter :: letters)
    | _ => p.plain text

/-- Judges what is left at the end, and fills in from the environment. -/
def finish (p : Parsing) (env : Environment) : Except Refusal Arguments := do
  let p ← p.settle
  let a := p.accepted
  let a ←
    match a.document, env "NESTBASE_SCHEMA" with
    | none, some text => a.acceptDocument text
    | _, _ => pure a
  let a ←
    match a.output, env "NESTBASE_OUTPUT" with
    | none, some text => a.acceptOutput text
    | _, _ => pure a
  if a.document.isNone then .error .missingDocument else return a

end Parsing

/-- What a command line asks for. -/
def Arguments.read (argv : List String) (env : Environment) : Except Refusal Arguments := do
  let p ← argv.foldlM Parsing.argument Parsing.start
  p.finish env

end Scaffold.CommandLine
