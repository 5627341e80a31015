import Mathlib.Data.List.Count
import Scaffold.Proofs.Properties

/-!
# One key for all files of a model

Three parts of a run ask for the key of a model, each for itself: the entity declares the
type of the key and lists its fields, the service addresses records by it, and a model
without a key is warned about. They agree, because each of them asks for the key first
and goes by nothing else afterwards.

The type of a key is written from the names of its fields once more. A name is looked up
among the fields with their types, and since names are distinct the field found is the
field of the key. So a member has the type of the property that shows its field, in
whichever class that property stands: a key may consist of relations, and where these are
kept apart its fields have no property in the class of the entity itself.
-/

namespace Scaffold

open Document (Environment Options)
open Naming (Name)
open Schema
open TypeScript

namespace Artifact

variable {c : Context} {m : NamedModel}

theorem fst_keyMembers {typed : List TypedField} {k : Key} :
    (keyMembers typed k).map Prod.fst = k.fields.map Field.name := by
  rw [keyMembers, List.map_map]
  refine List.map_congr_left fun f _ => ?_
  dsimp only [Function.comp_apply]
  split
  · rfl
  · rfl

/-- A member of a key type has the type that its field has on its own. -/
theorem forall₂_keyMembers {model : Model} {k : Key} {typed : List TypedField}
    (hnodup : (model.fields.map Field.name).Nodup) (hkey : model.key = .ok (some k))
    (htyped : typedFields c model = .ok typed) :
    List.Forall₂ (fun f member => f ∈ model.fields ∧
      ∃ t, FieldType.ofField c model.name f = .ok t ∧ member = (f.name, t.typeExpr))
      k.fields (keyMembers typed k) := by
  have hpairs : List.Forall₂ (fun f member => f.name = member.1) k.fields (keyMembers typed k) :=
    forall₂_eq_iff_map_eq.mpr fst_keyMembers.symm
  refine List.forall₂_iff_zip.mpr ⟨hpairs.length_eq, fun {f member} hzip => ?_⟩
  have hname := (List.forall₂_iff_zip.mp hpairs).2 hzip
  obtain ⟨hf, hmember⟩ := List.of_mem_zip hzip
  obtain ⟨t, ht, rfl⟩ := exists_of_mem_keyMembers hkey htyped member hmember
  obtain ⟨hfield, htype⟩ := (mem_typedFields htyped).mp ht
  have hsame : t.field = f := List.inj_on_of_nodup_map hnodup hfield
    (Model.mem_fields_of_key hkey f hf) hname.symm
  subst hsame
  exact ⟨hfield, t.type, htype, rfl⟩

/-- The line of a static member that lists names. -/
def staticLine (name items : String) : String :=
  indentUnit ++ "static readonly " ++ name ++ " = [" ++ items ++ "] as const;\n"

theorem staticLine_eq (name items : String) :
    indentUnit ++ constantText name items ++ "\n" = staticLine name items := by
  have hend : "] as const;\n" = "] as const;" ++ "\n" := by decide +kernel
  unfold staticLine constantText
  rw [hend]
  simp only [String.append_assoc]

/-- The line that lists the fields of a key. -/
def primaryKeyLine (names : List String) : String :=
  staticLine "primaryKey" (", ".intercalate (names.map fun name => "\"" ++ name ++ "\""))

/-- The line that lists the unique indexes of an entity, if there are any. -/
def Entity.indexLine (e : Entity) : String :=
  if e.uniqueIndexes.isEmpty then "" else
    staticLine "uniqueIndexes"
      (", ".intercalate (e.uniqueIndexes.map fun names => "[" ++ quotedList names ++ "]"))

/-- The lines of the class of relations and of the type behind it, if relations are apart. -/
def Entity.relationsLines (e : Entity) : String :=
  match e.relations with
  | some r =>
    "\nexport class " ++ r.name ++ " \x7b\n" ++ "\n".intercalate (r.properties.map propertyLines) ++
      "\x7d\n\nexport type " ++ r.withRelationsType ++ " = " ++ e.className ++ " & " ++ r.name ++
      ";\n"
  | none => ""

/-- The lines of the class of an entity, with the line that lists the fields of its key. -/
def Entity.classLines (e : Entity) (primaryKey : String) : String :=
  "export class " ++ e.className ++ " \x7b\n" ++ primaryKey ++ e.indexLine ++
    (if (primaryKey = "" ∧ e.uniqueIndexes.isEmpty) ∨ e.properties.isEmpty then "" else "\n") ++
    "\n".intercalate (e.properties.map propertyLines) ++ "\x7d\n"

/-- The content of the file of an entity around what it says about a key: the declaration of
the type of the key, and the line that lists its fields. -/
def Entity.contentWith (e : Entity) (keyType primaryKey : String) : String :=
  banner ++ "\n\n" ++ e.imports.renderBlock ++ keyType ++ commentAbove e.documentation "" ++
    e.classLines primaryKey ++ e.relationsLines

theorem staticLine_ne_empty (name items : String) : staticLine name items ≠ "" := by
  intro hempty
  have hlength := congrArg String.length hempty
  simp [staticLine, indentUnit] at hlength

theorem Entity.classText_eq (e : Entity) :
    classText ("export class " ++ e.className) e.statics (e.properties.map Property.text) =
      e.classLines ((e.primaryKey.map primaryKeyLine).getD "") := by
  have hstatics : String.join (e.statics.map fun s => indentUnit ++ s ++ "\n") =
      (e.primaryKey.map primaryKeyLine).getD "" ++ e.indexLine := by
    rw [statics, indexLine]
    cases e.primaryKey <;> cases e.uniqueIndexes.isEmpty <;>
      simp [staticLine_eq, primaryKeyLine, quotedList]
  have hgap : (if !e.statics.isEmpty && !(e.properties.map propertyLines).isEmpty then "\n"
        else "") =
      if ((e.primaryKey.map primaryKeyLine).getD "" = "" ∧ e.uniqueIndexes.isEmpty) ∨
        e.properties.isEmpty then "" else "\n" := by
    rw [statics]
    cases e.primaryKey <;> cases e.uniqueIndexes.isEmpty <;> cases e.properties <;>
      simp [primaryKeyLine, staticLine_ne_empty]
  unfold classText classLines
  simp only [hstatics, Property.map_text, hgap]
  simp only [String.append_assoc]

theorem Entity.closing_eq (e : Entity) : e.closing = e.relationsLines := by
  rw [closing, relationsLines]
  cases e.relations with
  | none => rfl
  | some r =>
      dsimp only
      rw [RelationsClass.text, classText, Property.map_text, ← String.toList_inj]
      simp

theorem Entity.keyText_eq (e : Entity) :
    e.keyText = (e.keyType.map fun k => keyTypeLines k.name k.members ++ "\n").getD "" := by
  rw [keyText]
  cases e.keyType with
  | none => rfl
  | some k => rfl

theorem Entity.content_eq {e : Entity} {f : GeneratedFile} {path : Path}
    (h : f.Holds ⟨path, .entity e⟩) :
    f.content = e.contentWith
      ((e.keyType.map fun k => keyTypeLines k.name k.members ++ "\n").getD "")
      ((e.primaryKey.map primaryKeyLine).getD "") := by
  rw [h.content, Body.text, e.text_eq, opening, classWith, e.classText_eq, e.closing_eq,
    e.keyText_eq, contentWith]
  simp only [String.append_assoc]

/-- A file of an entity that declares the type of a key and lists its fields. A member has the
type of the property that shows its field. -/
structure Entity.DeclaresKey (e : Entity) (m : NamedModel) (k : Key) (f : GeneratedFile) : Prop where
  className : e.className = m.entityClass
  keyType : ∃ members, e.keyType = some ⟨m.keyType, members⟩ ∧
    KeyType.WrittenIn ⟨m.keyType, members⟩ f ∧
    List.Forall₂ (fun field member => ∃ p ∈ e.classOf field,
      (Body.entity e).IsPropertyOf field.name p ∧ member = (field.name, p.type) ∧
        f.Contains (propertyLines p)) k.fields members ∧
    f.content = e.contentWith (keyTypeLines m.keyType members ++ "\n")
      (primaryKeyLine (k.fields.map Field.name))
  primaryKey : e.primaryKey = some (k.fields.map Field.name)

theorem declaresKey_entity {e : Entity} {k : Key}
    (hnodup : (m.model.fields.map Field.name).Nodup) (hkey : m.model.key = .ok (some k))
    (he : Entity.ofModel c m = .ok e) {f : GeneratedFile}
    (hf : f.Holds ⟨m.entityPath, .entity e⟩) : e.DeclaresKey m k f := by
  have hcontent := Entity.content_eq hf
  obtain ⟨key, hkey', -, typed, htyped, typeImports, -, hparts⟩ := entity_ofModel_eq_ok.mp he
  cases hkey.symm.trans hkey'
  have hkeyType : e.keyType = some ⟨m.keyType, keyMembers typed k⟩ := by
    rw [← hparts]
    rfl
  have hprimaryKey : e.primaryKey = some (k.fields.map Field.name) := by
    rw [← hparts]
    rfl
  rw [hkeyType, hprimaryKey] at hcontent
  refine ⟨by rw [← hparts]; rfl, ⟨_, hkeyType, hf.writesKeyType hkeyType, ?_, hcontent⟩, hprimaryKey⟩
  refine (forall₂_keyMembers hnodup hkey htyped).imp fun field member hmember => ?_
  obtain ⟨hfield, t, ht, rfl⟩ := hmember
  obtain ⟨hclass, hone⟩ := isPropertyOf_entity he hnodup hfield ht
  refine ⟨_, hclass, hone, rfl, hf.contains_property ?_⟩
  exact (List.mem_filter.mp (hone ▸ List.mem_singleton.mpr rfl)).1

/-- A file of an entity without a trace of a key. -/
structure Entity.Keyless (e : Entity) (m : NamedModel) (f : GeneratedFile) : Prop where
  keyType : e.keyType = none
  primaryKey : e.primaryKey = none
  not_declared : m.keyType ∉ (Body.entity e).declaredNames
  content : f.content = e.contentWith "" ""

theorem keyless_entity {e : Entity} (hkey : m.model.key = .ok none)
    (he : Entity.ofModel c m = .ok e) {f : GeneratedFile}
    (hf : f.Holds ⟨m.entityPath, .entity e⟩) : e.Keyless m f := by
  have hcontent := Entity.content_eq hf
  have hdeclared : m.keyType ∉ (Body.entity e).declaredNames := by
    rw [keyType_declared_iff he hkey]
    decide
  obtain ⟨key, hkey', -, typed, -, typeImports, -, rfl⟩ := entity_ofModel_eq_ok.mp he
  cases hkey.symm.trans hkey'
  exact ⟨rfl, rfl, hdeclared, hcontent⟩

/-- The lines of a method that hands on the promise of one call. -/
def methodLines (name parameters result call : String) : String :=
  indentUnit ++ "async " ++ name ++ "(" ++ parameters ++ "): Promise<" ++ result ++ "> \x7b\n" ++
    indentUnit ++ indentUnit ++ "return " ++ call ++ ";\n" ++ indentUnit ++ "\x7d\n"

/-- A call of a method that the client of the database has for a model. -/
def clientCall (m : NamedModel) (method argument : String) : String :=
  "this.prisma." ++ m.clientDelegate ++ "." ++ method ++ "(" ++ argument ++ ")"

/-- What the client is told of a key: it is handed on as it is, or under the selector of its
fields if it has several. -/
inductive IsAddress : Key → String → Prop
  | single (f : Field) : IsAddress (.single f) "key"
  | composite (selector : String) (fields : List Field) :
      IsAddress (.composite selector fields) ("\x7b " ++ selector ++ ": key \x7d")

/-- The method that creates a record, in every service. -/
def createLines (m : NamedModel) : String :=
  methodLines "create" ("data: " ++ m.createDtoClass) m.entityClass
    (clientCall m "create" "\x7b data \x7d")

/-- The method that lists records, in every service. -/
def findManyLines (m : NamedModel) : String :=
  methodLines "findMany" "params: \x7b skip?: number; take?: number \x7d = \x7b\x7d"
    (m.entityClass ++ "[]") (clientCall m "findMany" "params")

/-- The methods of a service that finds, changes and removes records by a key. -/
def keyedMethodLines (m : NamedModel) (address : String) : List String :=
  [createLines m,
    methodLines "findOne" ("key: " ++ m.keyType) (m.entityClass ++ " | null")
      (clientCall m "findUnique" ("\x7b where: " ++ address ++ " \x7d")),
    findManyLines m,
    methodLines "update" ("key: " ++ m.keyType ++ ", data: Partial<" ++ m.createDtoClass ++ ">")
      m.entityClass (clientCall m "update" ("\x7b where: " ++ address ++ ", data \x7d")),
    methodLines "remove" ("key: " ++ m.keyType) m.entityClass
      (clientCall m "delete" ("\x7b where: " ++ address ++ " \x7d"))]

/-- The content of the file of a service with some methods. -/
def Service.contentWith (s : Service) (methods : List String) : String :=
  banner ++ "\n\n" ++ s.imports.render ++ "\n@Injectable()\nexport class " ++ s.className ++
    " \x7b\n" ++ indentUnit ++ "constructor(protected readonly prisma: PrismaClient) \x7b\x7d\n\n" ++
    "\n".intercalate methods ++ "\x7d\n"

theorem isAddress_keyArgument (k : Key) : IsAddress k (keyArgument k) := by
  cases k with
  | single f => exact .single f
  | composite selector fields => exact .composite selector fields

theorem Service.content_eq {s : Service} {f : GeneratedFile} {path : Path}
    (h : f.Holds ⟨path, .service s⟩) : f.content = s.contentWith (s.methods.map Method.text) := by
  rw [h.content]
  simp only [Body.text, Service.text, contentWith, String.append_assoc]

theorem Method.text_eq {method : Method} {m : NamedModel} {called parameters : String}
    (hcallee : method.callee = Service.callee m called)
    (hparameters : ", ".intercalate (method.parameters.map Parameter.text) = parameters) :
    method.text =
      methodLines method.name parameters method.result (clientCall m called method.argument) := by
  have hcall : ");\n" = ")" ++ ";\n" := by decide +kernel
  unfold Method.text methodLines clientCall
  rw [hcall, hcallee, hparameters, Service.callee]
  simp only [String.append_assoc]

theorem map_text_methodsOf (m : NamedModel) (key : Option Key) :
    (Service.methodsOf m key).map Method.text =
      match key with
      | some k => keyedMethodLines m (keyArgument k)
      | none => [createLines m, findManyLines m] := by
  have hcreate : (Service.create m).text = createLines m :=
    Method.text_eq rfl (by simp [Service.create, Parameter.text])
  have hfindMany : (Service.findMany m).text = findManyLines m :=
    Method.text_eq rfl (by simp [Service.findMany, Parameter.text])
  cases key with
  | none => rw [Service.methodsOf, List.map_cons, List.map_singleton, hcreate, hfindMany]
  | some k =>
      have hkey : ", ".intercalate ([⟨"key", m.keyType, none⟩].map Parameter.text) =
          "key: " ++ m.keyType := by
        simp [Parameter.text]
      have hfindOne : (Service.findOne m k).text = _ := Method.text_eq rfl hkey
      have hboth : ", ".intercalate ((Service.update m k).parameters.map Parameter.text) =
          "key: " ++ m.keyType ++ ", data: Partial<" ++ m.createDtoClass ++ ">" := by
        simp [Service.update, Parameter.text, ← String.toList_inj]
      have hupdate : (Service.update m k).text = _ := Method.text_eq rfl hboth
      have hremove : (Service.remove m k).text = _ := Method.text_eq rfl hkey
      simp only [Service.methodsOf, List.map_cons, List.map_nil, hcreate, hfindOne, hfindMany,
        hupdate, hremove]
      rfl

/-- A service that finds, changes and removes records by a key. -/
structure Service.AddressesBy (s : Service) (m : NamedModel) (k : Key) (f : GeneratedFile) :
    Prop where
  names : s.methods.map Method.name = ["create", "findOne", "findMany", "update", "remove"]
  content : ∃ address, IsAddress k address ∧ f.content = s.contentWith (keyedMethodLines m address)

theorem Service.AddressesBy.contains {s : Service} {k : Key} {f : GeneratedFile}
    (h : s.AddressesBy m k f) {address : String} (haddress : IsAddress k address) {method : String}
    (hmethod : method ∈ keyedMethodLines m address) : f.Contains method := by
  obtain ⟨address', haddress', hcontent⟩ := h.content
  obtain rfl : address' = address := by
    cases haddress <;> cases haddress' <;> rfl
  rw [GeneratedFile.Contains, hcontent, contentWith]
  exact infix_append_left (infix_append_right (infix_intercalate "\n" hmethod))

/-- A service that only creates and lists records. -/
structure Service.Keyless (s : Service) (m : NamedModel) (f : GeneratedFile) : Prop where
  names : s.methods.map Method.name = ["create", "findMany"]
  content : f.content = s.contentWith [createLines m, findManyLines m]

theorem addressesBy_service {s : Service} {k : Key} (hkey : m.model.key = .ok (some k))
    (hs : Service.ofModel c m = .ok s) {f : GeneratedFile}
    (hf : f.Holds ⟨m.servicePath, .service s⟩) : s.AddressesBy m k f := by
  have hcontent := Service.content_eq hf
  obtain ⟨client, -, key, hkey', rfl⟩ := service_ofModel_eq_ok.mp hs
  cases hkey.symm.trans hkey'
  rw [map_text_methodsOf] at hcontent
  exact ⟨rfl, _, isAddress_keyArgument k, hcontent⟩

theorem keyless_service {s : Service} (hkey : m.model.key = .ok none)
    (hs : Service.ofModel c m = .ok s) {f : GeneratedFile}
    (hf : f.Holds ⟨m.servicePath, .service s⟩) : s.Keyless m f := by
  have hcontent := Service.content_eq hf
  obtain ⟨client, -, key, hkey', rfl⟩ := service_ofModel_eq_ok.mp hs
  cases hkey.symm.trans hkey'
  rw [map_text_methodsOf] at hcontent
  exact ⟨rfl, hcontent⟩

end Artifact

/-! ## Warnings

The models are asked for their keys once more to warn about those without one. Warnings are
counted by their messages here. Two of them are told apart because a message holds the name
of its model. -/

/-- Whether a model is known to have no key. -/
def Schema.Model.isKeyless (m : Model) : Bool :=
  match m.key with
  | .ok none => true
  | _ => false

theorem Schema.Model.isKeyless_eq {m : Model} {key : Option Key} (hkey : m.key = .ok key) :
    m.isKeyless = key.isNone := by
  rw [isKeyless, hkey]
  cases key with
  | none => rfl
  | some k => rfl

theorem Warning.message_noKey_inj {name name' : String}
    (h : (noKey name).message = (noKey name').message) : name = name' :=
  (String.append_right_inj _).mp ((String.append_left_inj _).mp h)

theorem filterMap_keyless {models : List Model} {keys : List (Model × Option Key)}
    (hkeys : List.Forall₂ (fun m entry => (m.key.map fun key => (m, key)) = .ok entry)
      models keys) :
    (keys.filterMap fun entry =>
        if entry.2.isNone then some (Warning.noKey entry.1.name) else none) =
      (models.filter Model.isKeyless).map fun m => .noKey m.name := by
  induction hkeys with
  | nil => rfl
  | cons hfirst _ ih =>
      obtain ⟨key, hkey, rfl⟩ := map_eq_ok.mp hfirst
      rw [List.filterMap_cons, List.filter_cons, Model.isKeyless_eq hkey, ih]
      cases key with
      | none => rfl
      | some k => rfl

/-- The models without a key are warned about in their order, and there is one other
warning, for a document without declarations. -/
theorem warningsOf_eq_ok {d : Datamodel} {warnings : List Warning}
    (h : warningsOf d = .ok warnings) :
    warnings = (if d.isEmpty then [.nothingDeclared] else []) ++
      (d.models.filter Model.isKeyless).map fun m => .noKey m.name := by
  obtain ⟨keys, hkeys, hwarnings⟩ := bind_eq_ok.mp h
  rw [← pure_eq_ok.mp hwarnings, ← filterMap_keyless (mapM_eq_ok_iff.mp hkeys)]

theorem warningsOf_of_generate {options : Options} {config : Config} {env : Environment}
    {workingDirectory : Path} {out : Output}
    (h : generate options config env workingDirectory = .ok out) :
    warningsOf options.datamodel = .ok out.warnings := by
  obtain ⟨-, -, -, -, -, warnings, hwarnings, rfl⟩ := generate_eq_ok.mp h
  exact hwarnings

theorem isEmpty_of_mem_models {d : Datamodel} {m : Model} (hm : m ∈ d.models) :
    d.isEmpty = false := by
  rw [Datamodel.isEmpty, List.isEmpty_eq_false_iff.mpr (List.ne_nil_of_mem hm), Bool.and_false]

/-- Where there are models, every warning is about one without a key. -/
theorem exists_of_mem_warnings {d : Datamodel} {warnings : List Warning}
    (h : warningsOf d = .ok warnings) (hsome : d.isEmpty = false) :
    ∀ w ∈ warnings, ∃ m ∈ d.models, m.isKeyless = true ∧ w = .noKey m.name := by
  rw [warningsOf_eq_ok h, hsome, if_neg (by decide), List.nil_append]
  intro w hw
  obtain ⟨m, hm, rfl⟩ := List.mem_map.mp hw
  obtain ⟨hm, hkeyless⟩ := List.mem_filter.mp hm
  exact ⟨m, hm, hkeyless, rfl⟩

/-- A model is warned about once if it has no key, and else not at all. -/
theorem count_message_warnings {d : Datamodel} {warnings : List Warning}
    (hnodup : (d.models.map Model.name).Nodup) (h : warningsOf d = .ok warnings) {m : Model}
    (hm : m ∈ d.models) :
    (warnings.map Warning.message).count (Warning.noKey m.name).message =
      if m.isKeyless then 1 else 0 := by
  rw [warningsOf_eq_ok h, isEmpty_of_mem_models hm, if_neg (by decide), List.nil_append]
  have hinjective : Function.Injective fun name => (Warning.noKey name).message :=
    fun name name' => Warning.message_noKey_inj
  have hmessages : (((d.models.filter Model.isKeyless).map fun m => Warning.noKey m.name).map
      Warning.message) = ((d.models.filter Model.isKeyless).map Model.name).map
        fun name => (Warning.noKey name).message := by
    rw [List.map_map, List.map_map]
    rfl
  rw [hmessages, List.count_map_of_injective _ _ hinjective,
    (hnodup.sublist (List.filter_sublist.map Model.name)).count]
  refine if_congr ?_ rfl rfl
  constructor
  · intro hmem
    obtain ⟨m', hm', hname⟩ := List.mem_map.mp hmem
    obtain ⟨hm', hkeyless⟩ := List.mem_filter.mp hm'
    rwa [← List.inj_on_of_nodup_map hnodup hm' hm hname]
  · intro hkeyless
    exact List.mem_map_of_mem (List.mem_filter.mpr ⟨hm, hkeyless⟩)

/-- A profile that is addressed by its owner. -/
def ownerDatamodel : Datamodel where
  enums := []
  models := [
    .plain "User" [(Field.plain "id" (.scalar .int)).asId],
    .plain "Profile" [
      (Field.plain "owner" (.relation ⟨"User", "ProfileOwner", [], []⟩)).asId,
      Field.plain "text" (.scalar .string)]]

/-- Whether the class of an entity lacks a property for some member of its key. -/
def Artifact.Body.hidesKey : Artifact.Body → Bool
  | .entity e => e.keyType.any fun k => k.members.any fun member =>
      e.properties.all fun p => p.name ≠ member.1
  | .enumeration _ | .createDto _ | .service _ | .index _ => false

theorem Artifact.exists_of_hidesKey {b : Artifact.Body} (h : b.hidesKey = true) :
    ∃ e k, b = .entity e ∧ e.keyType = some k ∧
      ∃ member ∈ k.members, ∀ p ∈ e.properties, p.name ≠ member.1 := by
  cases b with
  | entity e =>
      simp only [Body.hidesKey, Option.any_eq_true, List.any_eq_true, List.all_eq_true,
        decide_eq_true_eq] at h
      obtain ⟨k, hk, member, hmember, hnone⟩ := h
      exact ⟨e, k, rfl, hk, member, hmember, hnone⟩
  | enumeration file => cases h
  | createDto file => cases h
  | service file => cases h
  | index file => cases h

/-- A field of a key need not have a property in the class of the entity: a relation has
it in the class of relations, if there is one. -/
theorem exists_key_outside_class_ownerDatamodel :
    ∃ c tree out,
      generate (.ofDatamodel ownerDatamodel) { Config.standard with separateRelationFields := true }
          (fun _ => none) ⟨"/work"⟩ = .ok out ∧
        Generates (.ofDatamodel ownerDatamodel)
          { Config.standard with separateRelationFields := true } (fun _ => none) ⟨"/work"⟩ c tree
          out ∧
        ∃ a ∈ tree, ∃ e k, a = ⟨⟨"profile/ProfileBase.ts"⟩, .entity e⟩ ∧ e.keyType = some k ∧
          ∃ member ∈ k.members, ∀ p ∈ e.properties, p.name ≠ member.1 := by
  obtain ⟨out, hout⟩ : ∃ out, generate (.ofDatamodel ownerDatamodel)
      { Config.standard with separateRelationFields := true } (fun _ => none) ⟨"/work"⟩ =
        .ok out := exists_ok_of_isOk (by decide +kernel)
  obtain ⟨c, tree, hrun⟩ := exists_generates hout
  obtain ⟨⟨path, body⟩, ha, hcheck⟩ := hrun.exists_of_any
    (p := fun a => decide (a.path = ⟨"profile/ProfileBase.ts"⟩) && a.body.hidesKey)
    (by decide +kernel)
  rw [Bool.and_eq_true, decide_eq_true_eq] at hcheck
  obtain ⟨rfl, hhides⟩ := hcheck
  obtain ⟨e, k, rfl, hk, hmember⟩ := Artifact.exists_of_hidesKey hhides
  exact ⟨c, tree, out, hout, hrun, _, ha, e, k, rfl, hk, hmember⟩

/-- The entity, the service and the warnings of a run agree on the key of every model. A
member of the type of the key has the type of the one property of its name, which stands
in the class of the entity, or in that of its relations if these are kept apart and it is
one of them. The files are followed to their content: what is said of a key stands there in
lines that are spelled out, and without a key these lines are missing. -/
theorem generate_keys {options : Options} {config : Config} {env : Environment}
    {workingDirectory : Path} {out : Output}
    (h : generate options config env workingDirectory = .ok out) :
    ∃ c tree, Generates options config env workingDirectory c tree out ∧
      ∀ model ∈ options.datamodel.models, ∃ n key e s f g,
        Name.ofIdentifier model.name = .ok n ∧
        (NamedModel.mk model n).keyType = n.pascal ++ "Key" ∧ model.key = .ok key ∧
        ⟨(NamedModel.mk model n).entityPath, .entity e⟩ ∈ tree ∧
        out.HandsOver ⟨(NamedModel.mk model n).entityPath, .entity e⟩ f ∧
        ⟨(NamedModel.mk model n).servicePath, .service s⟩ ∈ tree ∧
        out.HandsOver ⟨(NamedModel.mk model n).servicePath, .service s⟩ g ∧
        e.relations.isSome = config.separateRelationFields ∧
        (∀ w ∈ out.warnings, ∃ other ∈ options.datamodel.models,
          other.isKeyless = true ∧ w = .noKey other.name) ∧
        match key with
        | some k =>
          e.DeclaresKey ⟨model, n⟩ k f ∧ s.AddressesBy ⟨model, n⟩ k g ∧
            (out.warnings.map Warning.message).count (Warning.noKey model.name).message = 0
        | none =>
          e.Keyless ⟨model, n⟩ f ∧ s.Keyless ⟨model, n⟩ g ∧
            (out.warnings.map Warning.message).count (Warning.noKey model.name).message = 1 := by
  obtain ⟨c, tree, hrun⟩ := exists_generates h
  have hwarnings := warningsOf_of_generate h
  have hsound := Datamodel.validate_eq_ok_iff.mp hrun.valid
  refine ⟨c, tree, hrun, fun model hmodel => ?_⟩
  obtain ⟨n, e, d, s, hn, he, -, hs, hentity, -, hservice⟩ := hrun.exists_filesOfModel hmodel
  obtain ⟨f, hf⟩ := hrun.exists_file hentity
  obtain ⟨g, hg⟩ := hrun.exists_file hservice
  obtain ⟨key, hkey⟩ := (hsound.models model hmodel).key
  have hcount := count_message_warnings hsound.modelNames hwarnings hmodel
  rw [Model.isKeyless_eq hkey] at hcount
  refine ⟨n, key, e, s, f, g, hn, rfl, hkey, hentity, hf, hservice, hg, ?_,
    exists_of_mem_warnings hwarnings (isEmpty_of_mem_models hmodel), ?_⟩
  · rw [Artifact.isSome_relations he, hrun.config_eq]
  · cases key with
    | some k =>
        have hnodup := (hsound.models model hmodel).fieldNames
        exact ⟨Artifact.declaresKey_entity hnodup hkey he hf.holds,
          Artifact.addressesBy_service hkey hs hg.holds, hcount⟩
    | none =>
        exact ⟨Artifact.keyless_entity hkey he hf.holds,
          Artifact.keyless_service hkey hs hg.holds, hcount⟩

/-- A model with a compound key, whose selector lists the fields in another order. -/
def lineModel : Model :=
  (Model.plain "OrderLine" [
    Field.plain "order" (.scalar .int),
    Field.plain "position" (.scalar .int),
    (Field.plain "text" (.scalar .string)).asOptional]).withPrimaryKey ⟨none, ["position", "order"]⟩

def lineDatamodel : Datamodel where
  enums := []
  models := [lineModel, .plain "Remark" [Field.plain "text" (.scalar .string)]]

/-- What its entity declares for the key. -/
def lineKeyType : String :=
  "export type OrderLineKey = \x7b\n    order: number;\n    position: number;\n\x7d;\n"

/-- The method of its service that finds a record. -/
def lineFindOne : String :=
  "    async findOne(key: OrderLineKey): Promise<OrderLineBase | null> \x7b\n" ++
    "        return this.prisma.orderLine.findUnique" ++
    "(\x7b where: \x7b position_order: key \x7d \x7d);\n    \x7d\n"

theorem generate_keys_lineDatamodel :
    ∃ out, generate (.ofDatamodel lineDatamodel) .standard (fun _ => none) ⟨"/work"⟩ = .ok out ∧
      ∃ k n e s f g, lineModel.key = .ok (some k) ∧ k.selector? = some "position_order" ∧
        k.fields.map Field.name = ["order", "position"] ∧
        out.filesAt ⟨"orderLine/OrderLineBase.ts"⟩ = [f] ∧
        Artifact.Entity.DeclaresKey e ⟨lineModel, n⟩ k f ∧
        f.Contains lineKeyType ∧
        out.filesAt ⟨"orderLine/orderLineBase.service.ts"⟩ = [g] ∧
        Artifact.Service.AddressesBy s ⟨lineModel, n⟩ k g ∧
        g.Contains lineFindOne ∧
        (out.warnings.map Warning.message).count (Warning.noKey "OrderLine").message = 0 := by
  obtain ⟨out, hout⟩ : ∃ out,
      generate (.ofDatamodel lineDatamodel) .standard (fun _ => none) ⟨"/work"⟩ = .ok out :=
    exists_ok_of_isOk (by decide +kernel)
  obtain ⟨c, tree, hrun, hkeys⟩ := generate_keys hout
  obtain ⟨n, key, e, s, f, g, hn, -, hkey, he, ⟨hf, hholds⟩, -, ⟨hg, -⟩, -, -, hagree⟩ :=
    hkeys lineModel List.mem_cons_self
  have hline : lineModel.key = .ok (some (.composite "position_order" (lineModel.fields.take 2))) :=
    rfl
  cases hkey.symm.trans hline
  obtain ⟨hdeclares, haddresses, hcount⟩ := hagree
  have hnamed : ((Name.ofIdentifier lineModel.name).toOption.any fun n =>
      decide ((NamedModel.mk lineModel n).entityPath = ⟨"orderLine/OrderLineBase.ts"⟩) &&
      decide ((NamedModel.mk lineModel n).servicePath = ⟨"orderLine/orderLineBase.service.ts"⟩) &&
      decide (lineFindOne ∈ Artifact.keyedMethodLines ⟨lineModel, n⟩ "\x7b position_order: key \x7d"))
        = true := by
    decide +kernel
  rw [hn] at hnamed
  simp only [Except.toOption, Option.any_some, Bool.and_eq_true, decide_eq_true_eq] at hnamed
  obtain ⟨⟨hentityPath, hservicePath⟩, hfindOne⟩ := hnamed
  have hfile : out.filesAt (NamedModel.mk lineModel n).entityPath = [f] := hf
  rw [hentityPath] at hfile
  refine ⟨out, hout, _, n, e, s, f, g, hline, rfl, rfl, hfile, hdeclares, ?_, hservicePath ▸ hg,
    haddresses, ?_, hcount⟩
  · obtain ⟨f', hf', -, hcheck⟩ := hrun.exists_file_of_any ⟨"orderLine/OrderLineBase.ts"⟩
      (p := fun b => decide ((b.keyType?.map fun k => Artifact.keyTypeLines k.name k.members) =
        some lineKeyType))
      (by decide +kernel)
    cases hfile.symm.trans hf'
    obtain ⟨members, hkeyType, hwritten, -⟩ := hdeclares.keyType
    have hlines : (e.keyType.map fun k => Artifact.keyTypeLines k.name k.members) = _ :=
      of_decide_eq_true (hcheck _ he hholds)
    rw [hkeyType] at hlines
    rw [← Option.some.inj hlines]
    exact hwritten.contains
  · exact haddresses.contains (.composite _ _) hfindOne

end Scaffold
