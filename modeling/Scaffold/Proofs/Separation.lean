import Scaffold.Proofs.Configurations
import Scaffold.Proofs.Properties

/-!
# Relations in a class of their own

Keeping relations apart moves properties and changes none of them. A field has the same
property either way, and which of the two classes it goes to is decided by whether it is a
relation. So the two classes share out the properties of the one, each in the order in
which they stood there.

Imports are collected along the fields before their properties are shared out, which is
why the file imports the same however many classes it has.
-/

namespace Scaffold

open Document (Environment Options)
open Schema
open TypeScript

/-- The properties of some of the fields of a model, of properties that show its fields
one after another. -/
def Schema.Model.pick (m : Model) (keep : Field → Bool) (properties : List Property) :
    List Property :=
  ((m.fields.zip properties).filter fun entry => keep entry.1).map Prod.snd

namespace Artifact

variable {c : Context} {config : Config} {m : NamedModel}

/-- Two entities of a model that write the same properties, the second with the relations
in a class of their own. -/
structure Entity.MovesRelations (joined apart : Entity) (m : NamedModel) : Prop where
  alike : joined.Alike apart
  imports : apart.imports = joined.imports
  names : joined.properties.map Property.name = m.model.fields.map Field.name
  joined_relations : joined.relations = none
  properties : apart.properties = m.model.pick (fun f => !f.isRelation) joined.properties
  relations : apart.relations = some ⟨m.relationsClass, m.withRelationsType,
    m.model.pick Field.isRelation joined.properties⟩
  together : (Body.entity apart).properties.Perm (Body.entity joined).properties
  /-- Up to the class the texts are the same, and the class differs in its properties. -/
  text : ∃ before, joined.text = before ++ joined.classWith joined.properties ∧
    apart.text = before ++ joined.classWith apart.properties ++ apart.closing

/-- A file of a run that keeps relations apart, and the same file of a run that does not.
Only entities differ. -/
inductive Separates (c : Context) : Artifact → Artifact → Prop
  | same {a : Artifact} (ha : a.body.role ≠ .entity) : Separates c a a
  | entity {m : NamedModel} {joined apart : Entity} (hm : m ∈ c.namedModels)
      (h : joined.MovesRelations apart m) :
      Separates c ⟨m.entityPath, .entity apart⟩ ⟨m.entityPath, .entity joined⟩

theorem Separates.toFile {a a' : Artifact} (h : Separates c a a') :
    a.toFile.path = a'.toFile.path ∧ a.toFile.role = a'.toFile.role ∧
      (a.toFile.role ≠ .entity → a.toFile = a'.toFile) := by
  rw [toFile_path, toFile_path, toFile_role, toFile_role]
  cases h with
  | same ha => exact ⟨rfl, rfl, fun _ => rfl⟩
  | entity hm h => exact ⟨rfl, rfl, fun hrole => absurd rfl hrole⟩

end Artifact

end Scaffold
