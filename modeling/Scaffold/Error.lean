import Scaffold.Json.Number
import Scaffold.Text.Quoted

/-! # What can go wrong

Every failure is a cause, and the causes are closed: a caller can tell them apart
without looking at a text. The wording stands here and nowhere else, one function
per type, so two failures read alike only if they are alike.
-/

namespace Scaffold

/-- What stands in a document where something else was due. -/
inductive Found
  | null
  | bool (b : Bool)
  | whole (n : Int)
  | real (x : Float)
  | string (s : String)
  | sequence
  | map
deriving DecidableEq

/-- How a message names what was found. -/
def Found.describe : Found → String
  | .null => "null"
  | .bool b => "boolean `" ++ (if b then "true" else "false") ++ "`"
  | .whole n => "integer `" ++ toString n ++ "`"
  | .real x => "floating point `" ++ Json.realText x ++ "`"
  | .string s => "string " ++ Text.quoted s
  | .sequence => "sequence"
  | .map => "map"

/-- A declaration that has the right shape and still means nothing. -/
inductive SchemaDefect
  | noValues (enumeration : String)
  | unknownScalar (field type : String)
  | unknownKind (field kind : String)
  | notAnObject
  | noDatamodel
  | other (reason : String)
deriving DecidableEq

def SchemaDefect.describe : SchemaDefect → String
  | .noValues enumeration => "enum '" ++ enumeration ++ "' declares no values"
  | .unknownScalar field type =>
    "field '" ++ field ++ "' has unsupported scalar type '" ++ type ++ "'"
  | .unknownKind field kind => "field '" ++ field ++ "' has unrecognized kind '" ++ kind ++ "'"
  | .notAnObject => "expected a JSON object at the document root"
  | .noDatamodel => "document has neither a 'dmmf' nor a 'datamodel' key"
  | .other reason => reason

/-- A value that does not have the shape its place asks for. -/
inductive ShapeFault
  | wrongType (found : Found) (wanted : String)
  | missing (key : String)
  /-- A record given as an array that ends before a required element. -/
  | tooShort (length : Nat) (record : String) (columns : Nat)
  /-- A record given as an array with more elements than the record has. -/
  | tooLong (length : Nat)
  | unknownVariant (name : String) (known : List String)
  | notOneKey
  | noVariant (type : String)
  | defect (d : SchemaDefect)
deriving DecidableEq

/-- A list of alternatives in a message: two are joined by a word, more by commas. -/
def describeVariants : List String → String
  | [] => "there are no variants"
  | [one] => "expected " ++ tick one
  | [one, two] => "expected " ++ tick one ++ " or " ++ tick two
  | many => "expected one of " ++ ", ".intercalate (many.map tick)
where
  tick (s : String) : String := "`" ++ s ++ "`"

def ShapeFault.describe : ShapeFault → String
  | .wrongType found wanted => "invalid type: " ++ found.describe ++ ", expected " ++ wanted
  | .missing key => "missing field `" ++ key ++ "`"
  | .tooShort length record columns =>
    "invalid length " ++ toString length ++ ", expected struct " ++ record ++ " with " ++
      toString columns ++ if columns = 1 then " element" else " elements"
  | .tooLong length => "invalid length " ++ toString length ++ ", expected fewer elements in array"
  | .unknownVariant name known => "unknown variant `" ++ name ++ "`, " ++ describeVariants known
  | .notOneKey => "invalid value: map, expected map with a single key"
  | .noVariant type => "data did not match any variant of untagged enum " ++ type
  | .defect d => "Invalid schema: " ++ d.describe

/-- A text that is no document, or a document that is no data model. -/
inductive DocumentFault
  /-- Where the text stops being a document is not recorded. -/
  | malformed
  | shape (fault : ShapeFault)
deriving DecidableEq

def DocumentFault.describe : DocumentFault → String
  | .malformed => "<syntax>"
  | .shape fault => fault.describe

/-- A refusal of the file system. -/
inductive SystemFault
  | notFound
  | exists
  | notADirectory
  | isADirectory
  | nameTooLong
  | busy
  | invalidArgument
  /-- A path holds the character that ends a path. -/
  | nulInPath
  | emptyPath
  | other (reason : String)
deriving DecidableEq

def SystemFault.describe : SystemFault → String
  | .notFound => "No such file or directory (os error 2)"
  | .exists => "File exists (os error 17)"
  | .notADirectory => "Not a directory (os error 20)"
  | .isADirectory => "Is a directory (os error 21)"
  | .nameTooLong => "File name too long (os error 36)"
  | .busy => "Device or resource busy (os error 16)"
  | .invalidArgument => "Invalid argument (os error 22)"
  | .nulInPath => "file name contained an unexpected NUL byte"
  | .emptyPath => "cannot make an empty path absolute"
  | .other reason => reason

/-- Why a file could not be read as a document. -/
inductive ReadFault
  | system (fault : SystemFault)
  | document (fault : DocumentFault)
deriving DecidableEq

def ReadFault.describe : ReadFault → String
  | .system fault => fault.describe
  | .document fault => "Invalid schema document: " ++ fault.describe

/-- A setting with a value it cannot take. The value is held as the message cites it. -/
inductive SettingDefect
  | notABoolean (key value : String)
  | blankPath (key value : String)
  | other (reason : String)
deriving DecidableEq

def SettingDefect.describe : SettingDefect → String
  | .notABoolean key value => "'" ++ key ++ "' must be a boolean, got " ++ value
  | .blankPath key value => "'" ++ key ++ "' must be a non-empty path, got " ++ value
  | .other reason => reason

/-- A setting that has to be there and is not. -/
inductive MissingSetting
  | unset (what : String)
  | unsetVariable (what envVar : String)
deriving DecidableEq

def MissingSetting.describe : MissingSetting → String
  | .unset what => what
  | .unsetVariable what envVar =>
    what ++ " (environment variable '" ++ envVar ++ "' is not set)"

/-- What a name is given to. -/
inductive Declared
  | model
  | enumeration
  | field
  | directory
deriving DecidableEq

def Declared.word : Declared → String
  | .model => "model"
  | .enumeration => "enum"
  | .field => "field"
  | .directory => "directory"

/-- How two names get in each other's way. -/
inductive NameClash
  | repeated (name : String)
  | sameForm (first second form : String)
deriving DecidableEq

def NameClash.describe : NameClash → String
  | .repeated name => "'" ++ name ++ "' is declared more than once"
  | .sameForm first second form =>
    "'" ++ first ++ "' and '" ++ second ++ "' both normalize to '" ++ form ++ "'"

/-- A state that no input leads to. -/
inductive Unreachable
  | namesMissing (declared : Declared) (name : String)
  /-- A task ended without a result. -/
  | taskBroken (reason : String)
  | other (reason : String)
deriving DecidableEq

def Unreachable.describe : Unreachable → String
  | .namesMissing declared name =>
    "no names computed for " ++ declared.word ++ " '" ++ name ++ "'"
  | .taskBroken reason => "write task failed: " ++ reason
  | .other reason => reason

/-- Everything that can end an operation. -/
inductive Error
  | invalidName (name : String)
  | fieldNotFound (model field : String)
  | modelNotFound (model referencedBy : String)
  | enumNotFound (model field name : String)
  | duplicateName (declared : Declared) (clash : NameClash)
  | invalidSchema (defect : SchemaDefect)
  | schemaNotFound (path : String)
  | document (fault : DocumentFault)
  | invalidConfig (defect : SettingDefect)
  | missingConfig (setting : MissingSetting)
  | system (fault : SystemFault)
  | fileRead (path : String) (fault : ReadFault)
  | fileWrite (path : String) (fault : SystemFault)
  | directoryCreate (path : String) (fault : SystemFault)
  | internal (reason : Unreachable)
deriving DecidableEq

def Error.message : Error → String
  | .invalidName name =>
    "Invalid identifier '" ++ name ++
      "': names must be ASCII and contain at least one letter or digit"
  | .fieldNotFound model field => "Field '" ++ field ++ "' not found in model '" ++ model ++ "'"
  | .modelNotFound model referencedBy =>
    "Model '" ++ model ++ "' referenced by '" ++ referencedBy ++ "' does not exist"
  | .enumNotFound model field name =>
    "Enum '" ++ name ++ "' referenced by '" ++ model ++ "." ++ field ++ "' does not exist"
  | .duplicateName declared clash =>
    "Duplicate " ++ declared.word ++ " name: " ++ clash.describe
  | .invalidSchema defect => "Invalid schema: " ++ defect.describe
  | .schemaNotFound path => "Schema not found at path: " ++ path
  | .document fault => "JSON serialization error: " ++ fault.describe
  | .invalidConfig defect => "Invalid configuration: " ++ defect.describe
  | .missingConfig setting => "Missing required configuration: " ++ setting.describe
  | .system fault => "IO error: " ++ fault.describe
  | .fileRead path fault => "Failed to read file '" ++ path ++ "': " ++ fault.describe
  | .fileWrite path fault => "Failed to write file '" ++ path ++ "': " ++ fault.describe
  | .directoryCreate path fault =>
    "Failed to create directory '" ++ path ++ "': " ++ fault.describe
  | .internal reason => "Internal error: " ++ reason.describe

/-- The message of the fault that an error passes on as it is. Errors that only cite a
fault have no cause of their own. -/
def Error.cause? : Error → Option String
  | .document fault => some fault.describe
  | .system fault => some fault.describe
  | _ => none

/-- Holds of the errors that a data model has in itself. -/
def Error.isStructural : Error → Bool
  | .fieldNotFound .. | .modelNotFound .. | .enumNotFound .. | .duplicateName .. => true
  | _ => false

/-- Holds of the errors that a setting causes. -/
def Error.isConfig : Error → Bool
  | .invalidConfig .. | .missingConfig .. => true
  | _ => false

/-- Holds of the errors that the file system causes. -/
def Error.isIo : Error → Bool
  | .system .. | .fileRead .. | .fileWrite .. | .directoryCreate .. => true
  | _ => false

end Scaffold
