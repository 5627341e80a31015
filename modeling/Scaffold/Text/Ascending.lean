/-! # Sets of texts as ascending lists

Wherever the output lists names without an order of their own (import lines, the
modules of an index), it lists each of them once and in ascending order. The
order is that of code points, which is also the order of the bytes that encode
them. A set is kept as its ascending list, so two sequences of insertions that
insert the same texts give the same list.
-/

namespace Scaffold.Text

/-- Puts a text into an ascending list, unless it is there already. -/
def insertAscending (name : String) : List String → List String
  | [] => [name]
  | first :: rest =>
    if name < first then name :: first :: rest
    else if name = first then first :: rest
    else first :: insertAscending name rest

/-- The entries of a list, each once, in ascending order. -/
def ascending (names : List String) : List String :=
  names.foldl (fun sorted name => insertAscending name sorted) []

theorem mem_insertAscending {name other : String} {sorted : List String} :
    other ∈ insertAscending name sorted ↔ other = name ∨ other ∈ sorted := by
  induction sorted with
  | nil => simp [insertAscending]
  | cons first rest ih =>
    rw [insertAscending]
    split
    · simp
    · split
      · next h => subst h; simp
      · simp only [List.mem_cons, ih]
        constructor
        · rintro (h | h | h) <;> simp [h]
        · rintro (h | h | h) <;> simp [h]

theorem mem_ascending {name : String} {names : List String} :
    name ∈ ascending names ↔ name ∈ names := by
  suffices h : ∀ sorted, name ∈ names.foldl (fun sorted name => insertAscending name sorted) sorted ↔
      name ∈ names ∨ name ∈ sorted by
    simpa [ascending] using h []
  induction names with
  | nil => simp
  | cons first rest ih =>
    intro sorted
    rw [List.foldl_cons, ih, mem_insertAscending, List.mem_cons]
    constructor
    · rintro (h | h | h) <;> simp [h]
    · rintro ((h | h) | h) <;> simp [h]

end Scaffold.Text
