import Scaffold.Schema.Model

/-! # Validation

A data model is valid when the names of its enums, of its models and of the fields
of each model are pairwise distinct and everything that is referred to by name is
declared. Of several defects the first is reported: names of enums, names of
models, and then the models one after another, each with its field names, its key,
its unique indexes, its relations and at last the types of its fields.
-/

namespace Scaffold.Schema

/-- The first entry that one of `seen` or an earlier entry equals. -/
def firstRepeat? [DecidableEq α] (seen : List α) : List α → Option α
  | [] => none
  | first :: rest => if first ∈ seen then some first else firstRepeat? (first :: seen) rest

/-- Nothing is reported exactly for lists without repetitions, apart from `seen`. -/
theorem firstRepeat?_eq_none_iff [DecidableEq α] {seen entries : List α} :
    firstRepeat? seen entries = none ↔ entries.Nodup ∧ ∀ x ∈ entries, x ∉ seen := by
  induction entries generalizing seen with
  | nil => simp [firstRepeat?]
  | cons first rest ih =>
    rw [firstRepeat?]
    split
    · next h => simp [h]
    · next h =>
      rw [ih, List.nodup_cons]
      constructor
      · rintro ⟨distinct, apart⟩
        refine ⟨⟨fun hm => apart first hm (by simp), distinct⟩, ?_⟩
        intro x hx
        rcases List.mem_cons.1 hx with rfl | hx
        · exact h
        · exact fun hs => apart x hx (by simp [hs])
      · rintro ⟨⟨fresh, distinct⟩, apart⟩
        refine ⟨distinct, fun x hx hs => ?_⟩
        rcases List.mem_cons.1 hs with rfl | hs
        · exact fresh hx
        · exact apart x (by simp [hx]) hs

namespace Model

/-- A name listed somewhere in the model that no field of it has. -/
def unknownField? (m : Model) (names : List String) : Option Error :=
  (m.firstUnknown? names).map (.fieldNotFound m.name)

/-- The first defect that a model has in itself. -/
def defect? (m : Model) : Option Error :=
  match firstRepeat? [] (m.fields.map Field.name) with
  | some name =>
    some (.duplicateName .field (.repeated (m.name ++ "." ++ name)))
  | none =>
    match m.key with
    | .error e => some e
    | .ok _ =>
      (m.uniqueIndexes.findSome? fun index => m.unknownField? index.fields) <|>
        m.relationFields.findSome? fun f =>
          f.relation?.bind fun r => m.unknownField? r.fromFields

def validate (m : Model) : Except Error Unit :=
  match m.defect? with
  | some e => .error e
  | none => .ok ()

end Model

namespace Datamodel

/-- The error of a field whose type is not declared. -/
def undeclaredType? (d : Datamodel) (m : Model) (f : Field) : Option Error :=
  match f.kind with
  | .enumeration name =>
    if (d.enum? name).isSome then none else some (.enumNotFound m.name f.name name)
  | .relation r =>
    if (d.model? r.model).isSome then none
    else some (.modelNotFound r.model (m.name ++ "." ++ f.name))
  | .scalar _ | .object _ => none

/-- The first defect of a data model. -/
def defect? (d : Datamodel) : Option Error :=
  match firstRepeat? [] (d.enums.map Enumeration.name) with
  | some name => some (.duplicateName .enumeration (.repeated name))
  | none =>
    match firstRepeat? [] (d.models.map Model.name) with
    | some name => some (.duplicateName .model (.repeated name))
    | none =>
      d.models.findSome? fun m => m.defect? <|> m.fields.findSome? (d.undeclaredType? m)

def validate (d : Datamodel) : Except Error Unit :=
  match d.defect? with
  | some e => .error e
  | none => .ok ()

end Datamodel

end Scaffold.Schema
