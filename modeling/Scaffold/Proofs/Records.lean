import Scaffold.Document.Datamodel
import Scaffold.Proofs.Fallible
import Scaffold.Proofs.Reading

/-!
# What columns read

A record is read column by column, and whether it is accepted depends on each cell
alone. `Columns.Reads` follows the way in which columns are put side by side, so the
condition for a whole record unfolds to one `Cell` after another. Nothing of the
errors is left in it, which is where the reading of records is complicated.

On the other side stand encodings: relations that say which values of a document may
stand for something. An encoding leaves open what a document may choose, such as a
key that is left out or the order of the keys. A reader inverts an encoding at some
point if it gets that point back from everything written for it, once that was
written and read as a text. This passes from items to lists of them, and from
something to its optional form.
-/

namespace Scaffold.Document

open Json (Value membersOf readBackMembers)

variable {α β : Type}

def Columns.Reads (columns : Columns α) (row : Row) (position : Nat) (P : α → Prop) : Prop :=
  ∃ a, columns.read row position = .ok a ∧ P a

/-- What a column makes of its cell. -/
def Cell (reader : Reader α) (absent : Option α) : Option Value → α → Prop
  | some v, a => reader v = .ok a
  | none, a => absent = some a

/-- What a column holds it has read, unless it is what stands for an absent cell. -/
theorem Cell.cases {reader : Reader α} {absent : Option α} {held : Option Value} {a : α}
    (h : Cell reader absent held a) : absent = some a ∨ ∃ v, reader v = .ok a := by
  cases held with
  | none => exact .inl h
  | some v => exact .inr ⟨v, h⟩

theorem exists_of_mem_list {reader : Reader α} {v : Value} {as : List α}
    (h : list reader v = .ok as) : ∀ a ∈ as, ∃ v, reader v = .ok a := by
  cases v with
  | array items =>
      intro a ha
      obtain ⟨v, -, hv⟩ := (mem_of_mapM_eq_ok h).mp ha
      exact ⟨v, hv⟩
  | null | bool b | number n | string s | object members => cases h

namespace Columns

variable {row : Row} {position : Nat}

theorem reads_seq {f : Columns (α → β)} {x : Columns α} {P : β → Prop} :
    (f <*> x).Reads row position P ↔
      f.Reads row position fun g => x.Reads row (position + f.width) fun a => P (g a) := by
  rw [show f <*> x = beside f x from rfl, Reads, beside]
  dsimp only
  cases hf : f.read row position with
  | error p => cases x.read row (position + f.width) <;> simp [Reads, hf]
  | ok g => cases hx : x.read row (position + f.width) <;> simp [Reads, hf, hx]

theorem reads_map {g : α → β} {x : Columns α} {P : β → Prop} :
    (g <$> x).Reads row position P ↔ x.Reads row position fun a => P (g a) := by
  -- To map is to put no column in front.
  have hseq : (g <$> x).Reads row position P ↔ (pure g : Columns (α → β)).Reads row position
      fun g => x.Reads row (position + 0) fun a => P (g a) := reads_seq
  rw [hseq]
  constructor
  · rintro ⟨_, ⟨⟩, h⟩
    exact h
  · intro h
    exact ⟨g, rfl, h⟩

theorem reads_one {key : String} {reader : Reader α} {absent : Option α} {P : α → Prop} :
    (one key reader absent).Reads row position P ↔
      ∃ a, Cell reader absent (row.cell? key position) a ∧ P a := by
  rw [Reads, one]
  dsimp only
  cases row.cell? key position with
  | none => cases absent <;> simp [Cell]
  | some v => cases hv : reader v <;> simp [Cell, hv, Except.mapError]

theorem reads_required {key : String} {reader : Reader α} {P : α → Prop} :
    (required key reader).Reads row position P ↔
      ∃ a, Cell reader Option.none (row.cell? key position) a ∧ P a :=
  reads_one

theorem reads_defaulted {key : String} {reader : Reader α} {absent : α} {P : α → Prop} :
    (defaulted key reader absent).Reads row position P ↔
      ∃ a, Cell reader (some absent) (row.cell? key position) a ∧ P a :=
  reads_one

theorem reads_optional {key : String} {reader : Reader α} {P : Option α → Prop} :
    (optional key reader).Reads row position P ↔
      ∃ a, Cell (nullable reader) (some Option.none) (row.cell? key position) a ∧ P a :=
  reads_one

end Columns

theorem record_object_eq_ok {name : String} {columns : Columns α}
    {members : List (String × Value)} {a : α} :
    record name columns (.object members) = .ok a ↔
      columns.Reads (.object members) 0 fun b => b = a := by
  rw [record, mapError_eq_ok, Columns.Reads, exists_eq_right]

/-- The record that a value stands for. -/
inductive IsRow : Value → Row → Prop
  | object (members : List (String × Value)) : IsRow (.object members) (.object members)
  | array (elements : List Value) : IsRow (.array elements) (.array elements)

/-- Whatever is read as a record stands for one, and its columns were read. -/
theorem exists_row_of_record {name : String} {columns : Columns α} {v : Value} {a : α}
    (h : record name columns v = .ok a) :
    ∃ row, IsRow v row ∧ columns.Reads row 0 fun b => b = a := by
  cases v with
  | object members => exact ⟨_, .object members, record_object_eq_ok.mp h⟩
  | array elements =>
      refine ⟨_, .array elements, ?_⟩
      rw [record] at h
      obtain ⟨b, hb, h⟩ := bind_eq_ok.mp h
      split at h
      · cases h
      · cases h
        exact ⟨a, mapError_eq_ok.mp hb, rfl⟩
  | null | bool b | number n | string s => cases h

theorem exists_reads_of_record {name : String} {columns : Columns α} {v : Value} {a : α}
    (h : record name columns v = .ok a) : ∃ row, columns.Reads row 0 fun b => b = a :=
  (exists_row_of_record h).imp fun _ hrow => hrow.2

/-- Which values of a document may be written for something. -/
abbrev Encoding (α : Type) := α → Value → Prop

/-- A reader gets something back from whatever is written for it. -/
def Inverts (reader : Reader α) (writes : Encoding α) (a : α) : Prop :=
  ∀ v, writes a v → reader v.readBack = .ok a

def writesText : Encoding String := fun s v => v = .string s

def writesFlag : Encoding Bool := fun b v => v = .bool b

def writesList (writes : Encoding α) : Encoding (List α) := fun as v =>
  ∃ items, v = .array items ∧ List.Forall₂ writes as items

def writesOption (writes : Encoding α) : Encoding (Option α)
  | none, v => v = .null
  | some a, v => writes a v

/-- Objects, by what they hold: for each key the last value under it. -/
def WritesObject (P : (String → Option Value) → Prop) (v : Value) : Prop :=
  ∃ members, v = .object members ∧ P fun key => members.reverse.lookup key

theorem inverts_text (s : String) : Inverts string writesText s := by
  rintro v rfl
  rfl

theorem inverts_flag (b : Bool) : Inverts boolean writesFlag b := by
  rintro v rfl
  rfl

theorem inverts_list {reader : Reader α} {writes : Encoding α} {as : List α}
    (h : ∀ a ∈ as, Inverts reader writes a) : Inverts (list reader) (writesList writes) as := by
  rintro v ⟨items, rfl, hitems⟩
  rw [Value.readBack, Json.readBackItems_eq_map, list, List.mapM_map, mapM_eq_ok_iff]
  induction hitems with
  | nil => exact .nil
  | @cons a v as items hwrites _ ih =>
      obtain ⟨ha, has⟩ := List.forall_mem_cons.mp h
      exact .cons (ha v hwrites) (ih has)

/-- An optional value is inverted by a reader that does not take null for one itself. -/
theorem inverts_option {reader : Reader α} {writes : Encoding α} {o : Option α}
    (h : ∀ a ∈ o, Inverts reader writes a) (hnull : ∀ a, reader .null ≠ .ok a) :
    Inverts (nullable reader) (writesOption writes) o := by
  intro v hv
  cases o with
  | none =>
      obtain rfl : v = .null := hv
      rfl
  | some a =>
      have hread := h a rfl v hv
      rw [nullable.eq_def]
      split
      · next heq => exact absurd (heq ▸ hread) (hnull a)
      · exact map_eq_ok.mpr ⟨a, hread, rfl⟩

theorem inverts_optionalText (o : Option String) :
    Inverts (nullable string) (writesOption writesText) o :=
  inverts_option (fun a _ => inverts_text a) nofun

theorem inverts_names (names : List String) : Inverts (list string) (writesList writesText) names :=
  inverts_list fun a _ => inverts_text a

/-- A cell that holds something, or is left out where it may be. -/
def Held (writes : Encoding α) (absent : Option α) : Option Value → α → Prop
  | some v, a => writes a v
  | none, a => absent = some a

theorem Held.cell {reader : Reader α} {writes : Encoding α} {absent : Option α}
    {held : Option Value} {a : α} (h : Held writes absent held a)
    (hinverts : Inverts reader writes a) : Cell reader absent (held.map Value.readBack) a := by
  cases held with
  | none => exact h
  | some v => exact hinverts v h

/-- A record is read back once its columns get what was written under their keys. -/
theorem record_readBack_eq_ok {name : String} {columns : Columns α}
    {members : List (String × Value)} {a : α} :
    record name columns (Value.object members).readBack = .ok a ↔
      columns.Reads (.object (membersOf (readBackMembers members))) 0 fun b => b = a := by
  rw [Value.readBack, Value.ofMembers, record_object_eq_ok]

theorem cell?_readBack (members : List (String × Value)) (key : String) (position : Nat) :
    (Row.object (membersOf (readBackMembers members))).cell? key position =
      (members.reverse.lookup key).map Value.readBack :=
  Json.lookup_readBack members key

end Scaffold.Document
