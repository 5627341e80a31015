import Scaffold.Proofs.Encoding
import Scaffold.Proofs.UniqueIndexes

/-!
# Decoding

A document that was written for a data model decodes to that data model, and whatever
a document decodes to is a data model that can be written.

The first half goes through records from the inside to the outside. For each of them
the cells that an encoding fills are the cells that its columns ask for, under the
same keys; what is left to show is how the columns are put together again. In a field
that is the kind, which is spread over five columns, and the default, which is told
from its value alone. The second half needs no encoding: it follows accepted records
back to the checks that they passed.

A text is not quite a value, and `ofText_encodings` says what has to be asked of it.
The two restrictions are those of `Value.read?`, and both are met by actual texts:
`nestedDatamodel` nests deeper than a reader goes, and `preciseDatamodel` has a double
that its own text is not read as.
-/

namespace Scaffold.Document

open Json (Value Spells)
open Schema

theorem isPlain_literal_iff {value : Value} :
    (Default.literal value).isPlain = true ↔
      value ≠ .null ∧ (value.get? "name").bind Value.string? = none := by
  cases value <;> simp [Default.isPlain]

theorem defaultOf_eq_literal {v value : Value} :
    defaultOf v = .literal value ↔ v = value ∧ (value.get? "name").bind Value.string? = none := by
  rw [defaultOf.eq_def]
  split
  · next name hname =>
      refine iff_of_false ?_ ?_
      · split <;> exact nofun
      · rintro ⟨rfl, hnone⟩
        rw [hname] at hnone
        cases hnone
  · next hnone =>
      constructor
      · rintro ⟨⟩
        exact ⟨rfl, hnone⟩
      · rintro ⟨rfl, -⟩
        rfl

theorem defaultOf_readBack {d : Default} {v : Value} (h : writesDefault d v)
    (hkept : d.isKept = true) (hplain : d.isPlain = true) :
    v.readBack ≠ .null ∧ defaultOf v.readBack = d := by
  cases d with
  | literal value =>
      obtain rfl : v = value := h
      rw [Value.readBack_of_isKept hkept]
      obtain ⟨hnull, hname⟩ := isPlain_literal_iff.mp hplain
      exact ⟨hnull, defaultOf_eq_literal.mpr ⟨rfl, hname⟩⟩
  | function name args =>
      obtain ⟨members, rfl, hname, hargs⟩ := h
      dsimp only at hname hargs
      refine ⟨nofun, ?_⟩
      have hread : ∀ key, ((Value.object members).readBack).get? key =
          (members.reverse.lookup key).map Value.readBack :=
        Json.lookup_readBack members
      rw [defaultOf, hread, hread]
      cases hheld : members.reverse.lookup "name" with
      | none =>
          rw [hheld] at hname
          cases hname
      | some v =>
          rw [hheld] at hname
          obtain rfl : v = .string name := hname
          cases hlist : members.reverse.lookup "args" with
          | none =>
              rw [hlist] at hargs
              obtain rfl : [] = args := Option.some.inj hargs
              rfl
          | some v =>
              rw [hlist] at hargs
              obtain rfl : v = .array args := hargs
              simp only [Option.map_some, Value.readBack, Json.readBackItems_of_itemsKept hkept]
              rfl

/-- The column of a default gets the value written for it, which says what the default is. -/
theorem exists_cell_default {held : Option Value} {o : Option Default}
    (h : Held (writesOption writesDefault) (some none) held o)
    (hkept : o.all Default.isKept = true) (hplain : o.all Default.isPlain = true) :
    ∃ read, Cell (nullable anything) (some none) (held.map Value.readBack) read ∧
      read.map defaultOf = o := by
  cases held with
  | none =>
      obtain rfl : none = o := Option.some.inj h
      exact ⟨none, rfl, rfl⟩
  | some v =>
      cases o with
      | none =>
          obtain rfl : v = .null := h
          exact ⟨none, rfl, rfl⟩
      | some d =>
          obtain ⟨hnull, hdefault⟩ := defaultOf_readBack h hkept hplain
          refine ⟨some v.readBack, ?_, congrArg some hdefault⟩
          show nullable anything v.readBack = .ok (some v.readBack)
          rw [nullable.eq_def]
          split
          · next heq => exact absurd heq hnull
          · rfl

/-- The row that describes a field, with some value for its default. -/
def rowOf (f : Field) (value : Option Value) : FieldRow where
  name := f.name
  kind := f.kind.word
  type := f.kind.typeName
  isList := f.isList
  isRequired := f.required
  isUnique := f.unique
  isId := f.isId
  isGenerated := f.generated
  isUpdatedAt := f.updatedAt
  hasDefaultValue := f.hasDefault
  defaultValue := value
  documentation := f.documentation
  relationName := f.relation?.map Relation.name
  relationFromFields := (f.relation?.map Relation.fromFields).getD []
  relationToFields := (f.relation?.map Relation.toFields).getD []

theorem kind?_rowOf (f : Field) (value : Option Value) : (rowOf f value).kind? = .ok f.kind := by
  obtain ⟨name, kind⟩ := f
  cases kind with
  | scalar type =>
      simp [FieldRow.kind?, rowOf, Kind.word, Kind.typeName, Scalar.ofName?_name]
  | enumeration name => simp [FieldRow.kind?, rowOf, Kind.word, Kind.typeName]
  | object name => simp [FieldRow.kind?, rowOf, Kind.word, Kind.typeName, Field.relation?]
  | relation r => simp [FieldRow.kind?, rowOf, Kind.word, Kind.typeName, Field.relation?]

theorem field_rowOf {f : Field} (h : f.Encodable) {value : Option Value}
    (hvalue : value.map defaultOf = f.defaultValue) : (rowOf f value).field f.kind = f := by
  obtain ⟨name, kind, cardinality, required, unique, isId, readOnly, generated, updatedAt,
    hasDefault, defaultValue, documentation⟩ := f
  obtain rfl : readOnly = false := h.readOnly
  obtain rfl : value.map defaultOf = defaultValue := hvalue
  have hannounced : (hasDefault || value.isSome) = hasDefault := by
    have hdefault := h.hasDefault
    cases value with
    | none => exact Bool.or_false _
    | some v => rw [show hasDefault = true from hdefault rfl]; rfl
  cases cardinality <;> simp [FieldRow.field, rowOf, Field.isList, hannounced]

theorem inverts_fieldRow {f : Field} (hencodable : f.Encodable)
    (hkept : f.defaultValue.all Default.isKept = true) {v : Value} (hv : writesField f v) :
    ∃ value, record "RawField" fieldColumns v.readBack = .ok (rowOf f value) ∧
      value.map defaultOf = f.defaultValue := by
  obtain ⟨members, rfl, h⟩ := hv
  obtain ⟨value, hcell, hvalue⟩ := exists_cell_default h.default hkept hencodable.plain
  refine ⟨value, ?_, hvalue⟩
  rw [record_readBack_eq_ok]
  simp only [fieldColumns, Columns.reads_seq, Columns.reads_map, Columns.reads_required,
    Columns.reads_defaulted, Columns.reads_optional, cell?_readBack]
  exact ⟨_, h.name.cell (inverts_text _), _, h.kind.cell (inverts_text _),
    _, h.type.cell (inverts_text _), _, h.isList.cell (inverts_flag _),
    _, h.isRequired.cell (inverts_flag _), _, h.isUnique.cell (inverts_flag _),
    _, h.isId.cell (inverts_flag _), _, h.isGenerated.cell (inverts_flag _),
    _, h.isUpdatedAt.cell (inverts_flag _), _, h.hasDefaultValue.cell (inverts_flag _),
    _, hcell, _, h.documentation.cell (inverts_optionalText _),
    _, h.relationName.cell (inverts_optionalText _),
    _, h.relationFromFields.cell (inverts_names _),
    _, h.relationToFields.cell (inverts_names _), rfl⟩

theorem inverts_field {f : Field} (hencodable : f.Encodable)
    (hkept : f.defaultValue.all Default.isKept = true) : Inverts readField writesField f := by
  intro v hv
  obtain ⟨value, hrow, hvalue⟩ := inverts_fieldRow hencodable hkept hv
  rw [readField, hrow]
  refine bind_eq_ok.mpr ⟨_, rfl, bind_eq_ok.mpr ⟨f.kind, ?_, ?_⟩⟩
  · exact mapError_eq_ok.mpr (kind?_rowOf f value)
  · exact congrArg Except.ok (field_rowOf hencodable hvalue)

theorem inverts_enumValue (name : String) : Inverts readEnumValue writesEnumValue name := by
  rintro v (rfl | ⟨members, rfl, hname⟩)
  · rfl
  · have hread := Json.lookup_readBack members "name"
    dsimp only at hname
    cases hheld : members.reverse.lookup "name" with
    | none =>
        rw [hheld] at hname
        cases hname
    | some v =>
        rw [hheld] at hname hread
        obtain rfl : v = .string name := hname
        rw [Value.readBack, Value.ofMembers, readEnumValue, Value.get?, hread]
        rfl

theorem inverts_enum {e : Enumeration} (hvalues : e.values ≠ []) :
    Inverts readEnum writesEnum e := by
  rintro v ⟨members, rfl, h⟩
  have hrow : record "RawEnum" enumColumns (Value.object members).readBack = .ok e := by
    rw [record_readBack_eq_ok]
    simp only [enumColumns, Columns.reads_seq, Columns.reads_map, Columns.reads_required,
      Columns.reads_defaulted, Columns.reads_optional, cell?_readBack]
    exact ⟨_, h.name.cell (inverts_text _),
      _, h.values.cell (inverts_list fun name _ => inverts_enumValue name),
      _, h.dbName.cell (inverts_optionalText _),
      _, h.documentation.cell (inverts_optionalText _), rfl⟩
  rw [readEnum, hrow]
  refine bind_eq_ok.mpr ⟨e, rfl, ?_⟩
  rw [if_neg (by simpa using hvalues)]

/-- Keys and unique indexes are read alike, as fields listed under a name. -/
theorem record_listed_eq_ok {recordName : String} {mk : Option String → List String → α}
    {name : Option String} {fields : List String} {v : Value}
    (hv : WritesObject (HoldsNames name fields) v) :
    record recordName (mk <$> optional "name" string <*> required "fields" (list string))
      v.readBack = .ok (mk name fields) := by
  obtain ⟨members, rfl, h⟩ := hv
  rw [record_readBack_eq_ok]
  simp only [Columns.reads_seq, Columns.reads_map, Columns.reads_required, Columns.reads_optional,
    cell?_readBack]
  exact ⟨_, h.name.cell (inverts_optionalText _), _, h.fields.cell (inverts_names _), rfl⟩

theorem inverts_primaryKey (key : PrimaryKey) : Inverts readPrimaryKey writesPrimaryKey key :=
  fun _ hv => record_listed_eq_ok hv

theorem inverts_uniqueIndex (index : UniqueIndex) :
    Inverts readUniqueIndex writesUniqueIndex index :=
  fun _ hv => record_listed_eq_ok hv

theorem inverts_model {m : Model} (hencodable : ∀ f ∈ m.fields, f.Encodable)
    (hkept : ∀ f ∈ m.fields, f.defaultValue.all Default.isKept = true) :
    Inverts readModel writesModel m := by
  rintro v ⟨members, rfl, h⟩
  obtain ⟨lists, hlists, hrepeated⟩ := h.uniqueFields
  have hkey : Inverts (nullable readPrimaryKey) (writesOption writesPrimaryKey) m.primaryKey :=
    inverts_option (fun key _ => inverts_primaryKey key) nofun
  have hrow : record "RawModel" modelColumns (Value.object members).readBack =
      .ok ⟨m.name, m.dbName, m.fields, m.primaryKey, m.uniqueIndexes, lists,
        m.documentation⟩ := by
    rw [record_readBack_eq_ok]
    simp only [modelColumns, Columns.reads_seq, Columns.reads_map, Columns.reads_required,
      Columns.reads_defaulted, Columns.reads_optional, cell?_readBack]
    exact ⟨_, h.name.cell (inverts_text _), _, h.dbName.cell (inverts_optionalText _),
      _, h.fields.cell (inverts_list fun f hf => inverts_field (hencodable f hf) (hkept f hf)),
      _, h.primaryKey.cell hkey,
      _, h.uniqueIndexes.cell (inverts_list fun index _ => inverts_uniqueIndex index),
      _, hlists.cell (inverts_list fun names _ => inverts_names names),
      _, h.documentation.cell (inverts_optionalText _), rfl⟩
  rw [readModel, hrow]
  refine congrArg Except.ok ?_
  have hmerged := Model.foldl_mergeUniqueIndex fun names hnames =>
    List.mem_map.mpr (hrepeated names hnames)
  rw [ModelRow.model, hmerged]

theorem inverts_datamodel {d : Datamodel} (hencodable : d.Encodable) (hkept : d.isKept = true) :
    Inverts readDatamodel writesDatamodel d := by
  rintro v ⟨members, rfl, h⟩
  have hmodels : ∀ m ∈ d.models, Inverts readModel writesModel m := by
    intro m hm
    have hall := List.all_eq_true.mp (List.all_eq_true.mp hkept m hm)
    exact inverts_model (hencodable.fields m hm) hall
  rw [readDatamodel, record_readBack_eq_ok]
  simp only [Columns.reads_seq, Columns.reads_map, Columns.reads_defaulted, cell?_readBack]
  exact ⟨_, h.enums.cell (inverts_list fun e he => inverts_enum (hencodable.values e he)),
    _, h.models.cell (inverts_list hmodels), rfl⟩

theorem exists_ofValue {d : Datamodel} {v : Value} (h : readDatamodel v.readBack = .ok d)
    (form : Form) : ∃ o, Options.ofValue (form.document v).readBack = .ok o ∧ o.datamodel = d := by
  have hwrapped : ∀ name, readWrapped name (.object [("datamodel", v.readBack)]) = .ok d := by
    intro name
    rw [readWrapped, record_object_eq_ok, Columns.reads_required]
    exact ⟨d, h, rfl⟩
  cases form with
  | bare =>
      refine ⟨.ofDatamodel d, ?_, rfl⟩
      show Options.ofValue (.object [("datamodel", v.readBack)]) = _
      rw [Options.ofValue, if_neg (by simp), if_pos (by simp), hwrapped]
      rfl
  | full =>
      refine ⟨⟨none, .unspecified, [], d⟩, ?_, rfl⟩
      show Options.ofValue (.object [("dmmf", .object [("datamodel", v.readBack)])]) = _
      rw [Options.ofValue, if_pos (by simp), mapError_eq_ok, readOptions, record_object_eq_ok]
      simp only [Columns.reads_seq, Columns.reads_map, Columns.reads_required,
        Columns.reads_defaulted, Columns.reads_optional]
      exact ⟨none, rfl, .unspecified, rfl, [], rfl, d, hwrapped "Dmmf", rfl⟩

/-! ## What is decoded is encodable

What is said of texts is said of data models that can be written at all. Decoding leads to
no others, since a default that is null counts as none and an enum without values is
refused. -/

theorem ne_null_of_nullable {v : Value} {o : Option Value}
    (h : nullable anything v = .ok o) : o ≠ some .null := by
  intro heq
  rw [nullable.eq_def] at h
  split at h
  · cases h
    cases heq
  · next hnull =>
      obtain ⟨w, hw, rfl⟩ := map_eq_ok.mp h
      cases hw
      exact hnull (Option.some.inj heq)

theorem encodable_of_readField {v : Value} {f : Field} (h : readField v = .ok f) :
    f.Encodable := by
  obtain ⟨row, hrow, h⟩ := bind_eq_ok.mp h
  obtain ⟨kind, -, h⟩ := bind_eq_ok.mp h
  obtain rfl := pure_eq_ok.mp h
  obtain ⟨place, hread⟩ := exists_reads_of_record hrow
  have hnull : row.defaultValue ≠ some .null := by
    simp only [fieldColumns, Columns.reads_seq, Columns.reads_map, Columns.reads_required,
      Columns.reads_defaulted, Columns.reads_optional] at hread
    obtain ⟨_, -, _, -, _, -, _, -, _, -, _, -, _, -, _, -, _, -, _, -, _, hdefault, _, -, _, -, _, -,
      _, -, rfl⟩ := hread
    rcases hdefault.cases with habsent | ⟨w, hw⟩
    · rw [← Option.some.inj habsent]
      exact nofun
    · exact ne_null_of_nullable hw
  refine ⟨rfl, fun hsome => ?_, ?_⟩
  · have hvalue : row.defaultValue.isSome = true := by
      simpa [FieldRow.field] using hsome
    simp [FieldRow.field, hvalue]
  · rw [FieldRow.field, Option.all_eq_true]
    intro d hd
    obtain ⟨value, hvalue, rfl⟩ := Option.map_eq_some_iff.mp hd
    cases hdefault : defaultOf value with
    | function name args => rfl
    | literal literal =>
        obtain ⟨rfl, hname⟩ := defaultOf_eq_literal.mp hdefault
        exact isPlain_literal_iff.mpr ⟨fun heq => hnull (heq ▸ hvalue), hname⟩

theorem values_ne_nil_of_readEnum {v : Value} {e : Enumeration} (h : readEnum v = .ok e) :
    e.values ≠ [] := by
  obtain ⟨row, -, h⟩ := bind_eq_ok.mp h
  split at h
  · cases h
  · next hvalues =>
      cases h
      simpa using hvalues

theorem encodable_of_readModel {v : Value} {m : Model} (h : readModel v = .ok m) :
    ∀ f ∈ m.fields, f.Encodable := by
  obtain ⟨row, hrow, rfl⟩ := map_eq_ok.mp h
  obtain ⟨place, hread⟩ := exists_reads_of_record hrow
  simp only [modelColumns, Columns.reads_seq, Columns.reads_map, Columns.reads_required,
    Columns.reads_defaulted, Columns.reads_optional] at hread
  obtain ⟨_, -, _, -, fields, hfields, _, -, _, -, _, -, _, -, rfl⟩ := hread
  intro f hf
  rcases hfields.cases with habsent | ⟨w, hw⟩
  · cases habsent
  · obtain ⟨field, hfield⟩ := exists_of_mem_list hw f hf
    exact encodable_of_readField hfield

theorem encodable_of_readDatamodel {v : Value} {d : Datamodel} (h : readDatamodel v = .ok d) :
    d.Encodable := by
  obtain ⟨place, hread⟩ := exists_reads_of_record h
  simp only [Columns.reads_seq, Columns.reads_map, Columns.reads_defaulted] at hread
  obtain ⟨enums, henums, models, hmodels, rfl⟩ := hread
  refine ⟨fun e he => ?_, fun m hm => ?_⟩
  · rcases henums.cases with habsent | ⟨w, hw⟩
    · rw [← Option.some.inj habsent] at he
      cases he
    · obtain ⟨written, hwritten⟩ := exists_of_mem_list hw e he
      exact values_ne_nil_of_readEnum hwritten
  · rcases hmodels.cases with habsent | ⟨w, hw⟩
    · rw [← Option.some.inj habsent] at hm
      cases hm
    · obtain ⟨written, hwritten⟩ := exists_of_mem_list hw m hm
      exact encodable_of_readModel hwritten

theorem exists_readDatamodel_of_readWrapped {name : String} {v : Value} {d : Datamodel}
    (h : readWrapped name v = .ok d) : ∃ w, readDatamodel w = .ok d := by
  obtain ⟨place, hread⟩ := exists_reads_of_record h
  rw [Columns.reads_required] at hread
  obtain ⟨_, hcell, rfl⟩ := hread
  exact hcell.cases.resolve_left nofun

theorem exists_readDatamodel {v : Value} {o : Options} (h : Options.ofValue v = .ok o) :
    ∃ w, readDatamodel w = .ok o.datamodel := by
  rw [Options.ofValue.eq_def] at h
  split at h
  · next members =>
      split at h
      · obtain ⟨place, hread⟩ := exists_reads_of_record (mapError_eq_ok.mp h)
        simp only [Columns.reads_seq, Columns.reads_map, Columns.reads_required,
          Columns.reads_defaulted, Columns.reads_optional] at hread
        obtain ⟨_, -, _, -, _, -, d, hcell, rfl⟩ := hread
        obtain ⟨w, hw⟩ := hcell.cases.resolve_left nofun
        exact exists_readDatamodel_of_readWrapped hw
      · split at h
        · obtain ⟨d, hd, rfl⟩ := map_eq_ok.mp (mapError_eq_ok.mp h)
          exact exists_readDatamodel_of_readWrapped hd
        · cases h
  · cases h

/-- Data models are decoded from their texts. Every text of either form that is written for
an encodable data model decodes to it, as long as it nests no deeper than the limit, its
numbers are numbers for the reader and the values in defaults are kept. Deeper texts are
refused, and no text decodes to anything but an encodable data model. -/
theorem ofText_inverts_encodings :
    (∀ (d : Datamodel) (v : Value) (form : Form) (text : String), d.Encodable → d.isKept = true →
      writesDatamodel d v → (form.document v).depth ≤ Json.nestingLimit →
      (∀ t ∈ (form.document v).tokens, t.isReadable = true) →
      Spells (form.document v).tokens text.toList →
      ∃ o, Options.ofText text = .ok o ∧ o.datamodel = d) ∧
    (∀ (v : Value) (text : String), Json.nestingLimit < v.depth →
      (∀ t ∈ v.tokens, t.isReadable = true) → Spells v.tokens text.toList →
      Options.ofText text = .error (.document .malformed)) ∧
    ∀ (text : String) (o : Options), Options.ofText text = .ok o → o.datamodel.Encodable := by
  refine ⟨?_, ?_, ?_⟩
  · intro d v form text hencodable hkept hwrites hdepth hreadable htext
    obtain ⟨o, ho, hdatamodel⟩ :=
      exists_ofValue (inverts_datamodel hencodable hkept v hwrites) form
    refine ⟨o, ?_, hdatamodel⟩
    rw [Options.ofText, Value.read?_of_spells htext hreadable, if_pos hdepth]
    exact ho
  · intro v text hdepth hreadable htext
    rw [Options.ofText, Value.read?_of_spells htext hreadable, if_neg (Nat.not_le.mpr hdepth)]
  · intro text o h
    rw [Options.ofText] at h
    split at h
    · cases h
    · obtain ⟨w, hw⟩ := exists_readDatamodel h
      exact encodable_of_readDatamodel hw

/-- A data model with a field of every kind and defaults of both. -/
def memberDatamodel : Datamodel where
  enums := [⟨"Role", ["ADMIN", "MEMBER"], some "roles", none⟩]
  models := [
    (Model.plain "Member" [
      ((Field.plain "id" (.scalar .int)).asId).withDefault (.function "autoincrement" []),
      (Field.plain "role" (.enumeration "Role")).withDefault (.literal (.string "MEMBER")),
      (Field.plain "limits" (.scalar .json)).withDefault (.literal (.object [
        ("ratio", .number (.real 0.5)), ("sizes", .array [.number (.whole (-2)), .null])])),
      (Field.plain "teamId" (.scalar .int)).asOptional,
      (Field.plain "team" (.relation ⟨"Team", "TeamMembers", ["teamId"], ["id"]⟩)).asOptional,
      (Field.plain "address" (.object "Address")).withDocumentation "one \"line\"\nand more"
      ]).withUniqueIndex ["teamId", "role"],
    (Model.plain "Team" [
      Field.plain "id" (.scalar .string),
      (Field.plain "members" (.relation ⟨"Member", "TeamMembers", [], []⟩)).asList
      ]).withPrimaryKey ⟨some "byId", ["id"]⟩]

theorem memberDatamodel_decoded :
    memberDatamodel.Encodable ∧ memberDatamodel.isKept = true ∧
      writesDatamodel memberDatamodel (encodeDatamodel memberDatamodel) ∧
      ∃ o, Options.ofText (Form.full.document (encodeDatamodel memberDatamodel)).text = .ok o ∧
        o.datamodel = memberDatamodel := by
  have hencodable : memberDatamodel.Encodable := by decide +kernel
  have hkept : memberDatamodel.isKept = true := by decide +kernel
  have hwrites := writesDatamodel_encodeDatamodel memberDatamodel
  exact ⟨hencodable, hkept, hwrites, ofText_inverts_encodings.1 memberDatamodel _ .full _
    hencodable hkept hwrites (by decide +kernel) (by decide +kernel) (Value.spells_text _)⟩

/-- A model with one field, of which only the default matters. -/
def datamodelWithDefault (value : Value) : Datamodel where
  enums := []
  models := [.plain "M" [(Field.plain "f" (.scalar .json)).withDefault (.literal value)]]

def defaultNumber? (d : Datamodel) : Option Json.Number :=
  match d.models.flatMap Model.fields with
  | [f] =>
    match f.defaultValue with
    | some (.literal (.number n)) => some n
    | _ => none
  | _ => none

/-- An array in an array and so on, with some arrays around the innermost one. -/
def nestedArrays : Nat → Value
  | 0 => .array []
  | around + 1 => .array [nestedArrays around]

def nestedDatamodel : Datamodel := datamodelWithDefault (nestedArrays 121)

def preciseDatamodel : Datamodel := datamodelWithDefault (.number (.real 9.083428985001119))

/-- Both restrictions are needed. A default may nest too deep, and reading may miss the last
digit of a double. -/
theorem nested_and_precise_not_decoded :
    (nestedDatamodel.Encodable ∧
      ∀ o, Options.ofText (Form.bare.document (encodeDatamodel nestedDatamodel)).text ≠ .ok o) ∧
    preciseDatamodel.Encodable ∧
      ∀ o, Options.ofText (Form.bare.document (encodeDatamodel preciseDatamodel)).text = .ok o →
        o.datamodel ≠ preciseDatamodel := by
  refine ⟨⟨by decide +kernel, fun o ho => ?_⟩, by decide +kernel, fun o ho heq => ?_⟩
  · rw [Options.ofText, Value.read?_of_spells (Value.spells_text _) (by decide +kernel),
      if_neg (by decide +kernel)] at ho
    cases ho
  · rw [Options.ofText, Value.read?_of_spells (Value.spells_text _) (by decide +kernel),
      if_pos (by decide +kernel)] at ho
    have hread : ((Options.ofValue (Form.bare.document (encodeDatamodel preciseDatamodel)).readBack
        ).toOption.bind fun o => defaultNumber? o.datamodel) = some (.real 9.08342898500112) := by
      decide +kernel
    rw [show Options.ofValue _ = _ from ho] at hread
    have hwritten : defaultNumber? o.datamodel = some (.real 9.08342898500112) := hread
    rw [heq] at hwritten
    revert hwritten
    decide +kernel

end Scaffold.Document
