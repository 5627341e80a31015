import Scaffold.Json.Number

/-! # Values of a document

The members of an object stand in ascending order of their keys and no key occurs
twice. A reader visits them in that order, so the order decides which of several
faults of an object is the one reported.
-/

namespace Scaffold.Json

/-- A value of a document. -/
inductive Value
  | null
  | bool (b : Bool)
  | number (n : Number)
  | string (s : String)
  | array (items : List Value)
  | object (members : List (String × Value))
deriving Inhabited

/-- Sets a key among ascending members; an earlier value of the key is replaced. -/
def setMember (key : String) (value : α) : List (String × α) → List (String × α)
  | [] => [(key, value)]
  | (first, held) :: rest =>
    if key < first then (key, value) :: (first, held) :: rest
    else if key = first then (key, value) :: rest
    else (first, held) :: setMember key value rest

/-- The ascending members of a list of settings, of which the last one for a key counts. -/
def membersOf (settings : List (String × α)) : List (String × α) :=
  settings.foldl (fun members setting => setMember setting.1 setting.2 members) []

/-- An object with the given members. -/
def Value.ofMembers (settings : List (String × Value)) : Value :=
  .object (membersOf settings)

/-- The value that an object has under a key. -/
def Value.get? : Value → String → Option Value
  | .object members, key => members.lookup key
  | _, _ => none

/-- The text of a value that is a text. -/
def Value.string? : Value → Option String
  | .string s => some s
  | _ => none

theorem lookup_setMember_self (key : String) (value : α) (members : List (String × α)) :
    (setMember key value members).lookup key = some value := by
  induction members with
  | nil => simp [setMember]
  | cons first rest ih =>
    obtain ⟨name, held⟩ := first
    rw [setMember]
    split
    · simp
    · split
      · simp
      · next h =>
        have hk : (key == name) = false := by simpa using h
        simp [List.lookup_cons, hk, ih]

theorem lookup_setMember_of_ne {key other : String} (value : α) (members : List (String × α))
    (h : other ≠ key) : (setMember key value members).lookup other = members.lookup other := by
  have hk : (other == key) = false := by simpa using h
  induction members with
  | nil => simp [setMember, List.lookup_cons, hk]
  | cons first rest ih =>
    obtain ⟨name, held⟩ := first
    rw [setMember]
    split
    · simp [List.lookup_cons, hk]
    · split
      · next heq => subst heq; simp [List.lookup_cons, hk]
      · simp [List.lookup_cons, ih]

end Scaffold.Json
