import Scaffold.Document.Options
import Scaffold.Proofs.Records

/-!
# Data models are decoded from what was written for them

A data model is written with every attribute under its key. The encodings below are
relations because documents have choices: a key that holds its default may be left
out, keys that nobody reads may stand anywhere, an enum value is a name or an object
with a name, and the order of keys is free. `encodeDatamodel` is the choice to write
everything.

Some data models are not the meaning of any document. An enum always has a value, a
field is never marked as read-only, a default is announced wherever there is one, and
a default that is null or looks like a function is not a literal. `Encodable` is the
absence of all that. What remains between it and being decoded are two restrictions of
the reader itself: a text may not nest deeper than the limit, and doubles among the
defaults have to be exact in their texts. The second is `Datamodel.isKept`.
-/

namespace Scaffold.Schema

open Json (Value)

def Kind.word : Kind → String
  | .scalar _ => "scalar"
  | .enumeration _ => "enum"
  | .relation _ | .object _ => "object"

def Default.isKept : Default → Bool
  | .function _ args => Json.itemsKept args
  | .literal value => value.isKept

/-- Whether a literal is neither the absence of a default nor looks like a function. -/
def Default.isPlain : Default → Bool
  | .function _ _ => true
  | .literal .null => false
  | .literal value => ((value.get? "name").bind Value.string?).isNone

/-- A field that a document can describe. -/
structure Field.Encodable (f : Field) : Prop where
  readOnly : f.readOnly = false
  hasDefault : f.defaultValue.isSome = true → f.hasDefault = true
  plain : f.defaultValue.all Default.isPlain = true

instance (f : Field) : Decidable f.Encodable :=
  decidable_of_iff (f.readOnly = false ∧ (f.defaultValue.isSome = true → f.hasDefault = true) ∧
      f.defaultValue.all Default.isPlain = true)
    ⟨fun h => ⟨h.1, h.2.1, h.2.2⟩, fun h => ⟨h.readOnly, h.hasDefault, h.plain⟩⟩

namespace Datamodel

/-- A data model that a document can describe. -/
structure Encodable (d : Datamodel) : Prop where
  values : ∀ e ∈ d.enums, e.values ≠ []
  fields : ∀ m ∈ d.models, ∀ f ∈ m.fields, f.Encodable

instance (d : Datamodel) : Decidable d.Encodable :=
  decidable_of_iff ((∀ e ∈ d.enums, e.values ≠ []) ∧ ∀ m ∈ d.models, ∀ f ∈ m.fields, f.Encodable)
    ⟨fun h => ⟨h.1, h.2⟩, fun h => ⟨h.values, h.fields⟩⟩

/-- Whether all values in defaults are kept in their texts. -/
def isKept (d : Datamodel) : Bool :=
  d.models.all fun m => m.fields.all fun f => f.defaultValue.all Default.isKept

end Datamodel

end Scaffold.Schema

namespace Scaffold.Document

open Json (Value)
open Schema

/-- A function as an object with its name and its arguments, a literal as itself. -/
def writesDefault : Encoding Default
  | .function name args => WritesObject fun held =>
    Held writesText none (held "name") name ∧
      Held (fun args v => v = .array args) (some []) (held "args") args
  | .literal value => fun v => v = value

/-- What an object holds that is written for a field. -/
structure HoldsField (f : Field) (held : String → Option Value) : Prop where
  name : Held writesText none (held "name") f.name
  kind : Held writesText none (held "kind") f.kind.word
  type : Held writesText none (held "type") f.kind.typeName
  isList : Held writesFlag (some false) (held "isList") f.isList
  isRequired : Held writesFlag (some false) (held "isRequired") f.required
  isUnique : Held writesFlag (some false) (held "isUnique") f.unique
  isId : Held writesFlag (some false) (held "isId") f.isId
  isGenerated : Held writesFlag (some false) (held "isGenerated") f.generated
  isUpdatedAt : Held writesFlag (some false) (held "isUpdatedAt") f.updatedAt
  hasDefaultValue : Held writesFlag (some false) (held "hasDefaultValue") f.hasDefault
  default : Held (writesOption writesDefault) (some none) (held "default") f.defaultValue
  documentation : Held (writesOption writesText) (some none) (held "documentation")
    f.documentation
  relationName : Held (writesOption writesText) (some none) (held "relationName")
    (f.relation?.map Relation.name)
  relationFromFields : Held (writesList writesText) (some []) (held "relationFromFields")
    ((f.relation?.map Relation.fromFields).getD [])
  relationToFields : Held (writesList writesText) (some []) (held "relationToFields")
    ((f.relation?.map Relation.toFields).getD [])

def writesField : Encoding Field := fun f => WritesObject (HoldsField f)

def writesEnumValue : Encoding String := fun name v =>
  writesText name v ∨ WritesObject (fun held => Held writesText none (held "name") name) v

structure HoldsEnum (e : Enumeration) (held : String → Option Value) : Prop where
  name : Held writesText none (held "name") e.name
  values : Held (writesList writesEnumValue) (some []) (held "values") e.values
  dbName : Held (writesOption writesText) (some none) (held "dbName") e.dbName
  documentation : Held (writesOption writesText) (some none) (held "documentation")
    e.documentation

def writesEnum : Encoding Enumeration := fun e => WritesObject (HoldsEnum e)

/-- What an object holds that is written for fields listed under a name. -/
structure HoldsNames (name : Option String) (fields : List String)
    (held : String → Option Value) : Prop where
  name : Held (writesOption writesText) (some none) (held "name") name
  fields : Held (writesList writesText) none (held "fields") fields

def writesPrimaryKey : Encoding PrimaryKey := fun key =>
  WritesObject (HoldsNames key.name key.fields)

def writesUniqueIndex : Encoding UniqueIndex := fun index =>
  WritesObject (HoldsNames index.name index.fields)

/-- What an object holds that is written for a model. Indexes may be repeated as bare lists
of their fields. -/
structure HoldsModel (m : Model) (held : String → Option Value) : Prop where
  name : Held writesText none (held "name") m.name
  dbName : Held (writesOption writesText) (some none) (held "dbName") m.dbName
  fields : Held (writesList writesField) none (held "fields") m.fields
  primaryKey : Held (writesOption writesPrimaryKey) (some none) (held "primaryKey") m.primaryKey
  uniqueIndexes : Held (writesList writesUniqueIndex) (some []) (held "uniqueIndexes")
    m.uniqueIndexes
  uniqueFields : ∃ lists, Held (writesList (writesList writesText)) (some [])
    (held "uniqueFields") lists ∧ ∀ names ∈ lists, ∃ index ∈ m.uniqueIndexes, index.fields = names
  documentation : Held (writesOption writesText) (some none) (held "documentation")
    m.documentation

def writesModel : Encoding Model := fun m => WritesObject (HoldsModel m)

structure HoldsDatamodel (d : Datamodel) (held : String → Option Value) : Prop where
  enums : Held (writesList writesEnum) (some []) (held "enums") d.enums
  models : Held (writesList writesModel) (some []) (held "models") d.models

def writesDatamodel : Encoding Datamodel := fun d => WritesObject (HoldsDatamodel d)

/-- The two forms of a document that carries nothing but a data model. -/
inductive Form
  | bare
  | full

def Form.document : Form → Value → Value
  | bare, v => .object [("datamodel", v)]
  | full, v => .object [("dmmf", .object [("datamodel", v)])]

def encodeText : Option String → Value
  | none => .null
  | some s => .string s

def encodeNames (names : List String) : Value :=
  .array (names.map .string)

def encodeDefault : Default → Value
  | .function name args => .object [("name", .string name), ("args", .array args)]
  | .literal value => value

def encodeField (f : Field) : Value :=
  .object [
    ("name", .string f.name),
    ("kind", .string f.kind.word),
    ("type", .string f.kind.typeName),
    ("isList", .bool f.isList),
    ("isRequired", .bool f.required),
    ("isUnique", .bool f.unique),
    ("isId", .bool f.isId),
    ("isGenerated", .bool f.generated),
    ("isUpdatedAt", .bool f.updatedAt),
    ("hasDefaultValue", .bool f.hasDefault),
    ("default", (f.defaultValue.map encodeDefault).getD .null),
    ("documentation", encodeText f.documentation),
    ("relationName", encodeText (f.relation?.map Relation.name)),
    ("relationFromFields", encodeNames ((f.relation?.map Relation.fromFields).getD [])),
    ("relationToFields", encodeNames ((f.relation?.map Relation.toFields).getD []))]

def encodeEnum (e : Enumeration) : Value :=
  .object [
    ("name", .string e.name),
    ("values", encodeNames e.values),
    ("dbName", encodeText e.dbName),
    ("documentation", encodeText e.documentation)]

def encodeListed (name : Option String) (fields : List String) : Value :=
  .object [("name", encodeText name), ("fields", encodeNames fields)]

def encodeModel (m : Model) : Value :=
  .object [
    ("name", .string m.name),
    ("dbName", encodeText m.dbName),
    ("fields", .array (m.fields.map encodeField)),
    ("primaryKey", (m.primaryKey.map fun key => encodeListed key.name key.fields).getD .null),
    ("uniqueIndexes", .array (m.uniqueIndexes.map fun i => encodeListed i.name i.fields)),
    ("documentation", encodeText m.documentation)]

/-- A data model with every attribute under its key. -/
def encodeDatamodel (d : Datamodel) : Value :=
  .object [
    ("enums", .array (d.enums.map encodeEnum)),
    ("models", .array (d.models.map encodeModel))]

theorem writesOption_encodeText (o : Option String) :
    writesOption writesText o (encodeText o) := by
  cases o <;> rfl

theorem writesList_map {writes : Encoding α} {encode : α → Value}
    (h : ∀ a, writes a (encode a)) (as : List α) :
    writesList writes as (.array (as.map encode)) := by
  refine ⟨_, rfl, List.forall₂_map_right_iff.mpr ?_⟩
  exact List.forall₂_same.mpr fun a _ => h a

theorem writesList_encodeNames (names : List String) :
    writesList writesText names (encodeNames names) := by
  have hname : ∀ name, writesText name (.string name) := fun _ => rfl
  exact writesList_map hname names

theorem writesOption_map {writes : Encoding α} {encode : α → Value}
    (h : ∀ a, writes a (encode a)) (o : Option α) :
    writesOption writes o ((o.map encode).getD .null) := by
  cases o with
  | none => rfl
  | some a => exact h a

theorem writesDefault_encodeDefault (d : Default) : writesDefault d (encodeDefault d) := by
  cases d with
  | function name args => exact ⟨_, rfl, rfl, rfl⟩
  | literal value => rfl

theorem writesField_encodeField (f : Field) : writesField f (encodeField f) :=
  ⟨_, rfl, rfl, rfl, rfl, rfl, rfl, rfl, rfl, rfl, rfl, rfl,
    writesOption_map writesDefault_encodeDefault _, writesOption_encodeText _,
    writesOption_encodeText _, writesList_encodeNames _, writesList_encodeNames _⟩

theorem writesEnum_encodeEnum (e : Enumeration) : writesEnum e (encodeEnum e) :=
  ⟨_, rfl, rfl, writesList_map (fun _ => .inl rfl) _, writesOption_encodeText _,
    writesOption_encodeText _⟩

theorem holdsNames_encodeListed (name : Option String) (fields : List String) :
    WritesObject (HoldsNames name fields) (encodeListed name fields) :=
  ⟨_, rfl, writesOption_encodeText _, writesList_encodeNames _⟩

theorem writesModel_encodeModel (m : Model) : writesModel m (encodeModel m) :=
  ⟨_, rfl, rfl, writesOption_encodeText _, writesList_map writesField_encodeField _,
    writesOption_map (fun _ => holdsNames_encodeListed _ _) _,
    writesList_map (fun _ => holdsNames_encodeListed _ _) _, ⟨[], rfl, nofun⟩,
    writesOption_encodeText _⟩

theorem writesDatamodel_encodeDatamodel (d : Datamodel) :
    writesDatamodel d (encodeDatamodel d) :=
  ⟨_, rfl, writesList_map writesEnum_encodeEnum _, writesList_map writesModel_encodeModel _⟩

end Scaffold.Document
