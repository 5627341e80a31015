/-! # Scalar types

The nine types of a column that are not declared by the schema itself, and what
each of them is on the other side: a type of TypeScript, a constructor and a format
for the OpenAPI description, and a check of incoming values.
-/

namespace Scaffold.Schema

/-- A built-in column type. -/
inductive Scalar
  | string
  | boolean
  | int
  | bigInt
  | float
  | decimal
  | dateTime
  | json
  | bytes
deriving DecidableEq, Repr

namespace Scalar

/-- All scalar types, in the order in which messages list them. -/
def all : List Scalar :=
  [.string, .boolean, .int, .bigInt, .float, .decimal, .dateTime, .json, .bytes]

/-- The name of a type in a schema. -/
def name : Scalar → String
  | string => "String"
  | boolean => "Boolean"
  | int => "Int"
  | bigInt => "BigInt"
  | float => "Float"
  | decimal => "Decimal"
  | dateTime => "DateTime"
  | json => "Json"
  | bytes => "Bytes"

/-- The type with a given name. -/
def ofName? (name : String) : Option Scalar :=
  all.find? (fun s => s.name = name)

theorem ofName?_name (s : Scalar) : ofName? s.name = some s := by
  cases s <;> rfl

/-- The type of values in TypeScript. Decimals travel as text, so that no digit is lost. -/
def tsType : Scalar → String
  | string | decimal => "string"
  | boolean => "boolean"
  | int | float => "number"
  | bigInt => "bigint"
  | dateTime => "Date"
  | json => "Prisma.JsonValue"
  | bytes => "Buffer"

/-- The constructor that stands for the type in an OpenAPI description. -/
def openApiType : Scalar → String
  | string | bigInt | decimal | dateTime | bytes => "String"
  | boolean => "Boolean"
  | int | float => "Number"
  | json => "Object"

/-- The format to add where the constructor alone says too little. -/
def openApiFormat? : Scalar → Option String
  | dateTime => some "date-time"
  | bytes => some "binary"
  | bigInt => some "int64"
  | _ => none

/-- The decorator that checks incoming values, for types that have one. -/
def validator? : Scalar → Option String
  | string => some "IsString"
  | boolean => some "IsBoolean"
  | int => some "IsInt"
  | float => some "IsNumber"
  | decimal => some "IsNumberString"
  | dateTime => some "IsDate"
  | bigInt | json | bytes => none

/-- Whether the TypeScript type lives in the namespace of the database client. -/
def needsClientNamespace (s : Scalar) : Bool :=
  s = .json

end Scalar

end Scaffold.Schema
