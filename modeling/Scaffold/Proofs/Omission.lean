import Mathlib.Data.List.Sort
import Scaffold.Proofs.Imports

/-!
# Leaving things out of a text

A text is put together from pieces, and leaving out some of them gives another text.
`Omits` keeps the pieces that were left out, in order, so that a statement about two texts
says not only that the second has less in it but what it lacks. It is carried along the
same operations by which classes are written: putting one behind another, joining, and
joining with something in between.

Imports are not written piece by piece. What a file imports is a table with a line for
each module, and without some names a line gets shorter, vanishes with the last name that
it had, and takes the blank line behind the imports with it if no other line is left.
-/

namespace Scaffold.TypeScript

/-- A text, and what is left of it without some of its pieces. -/
inductive Omits : List String → String → String → Prop
  | same (text : String) : Omits [] text text
  | piece (text : String) : Omits [text] text ""
  | append {first second : List String} {s s' t t' : String} (hs : Omits first s s')
      (ht : Omits second t t') : Omits (first ++ second) (s ++ t) (s' ++ t')

namespace Omits

variable {α : Type} {pieces : List String} {s s' : String}

theorem behind (text : String) (h : Omits pieces s s') : Omits pieces (text ++ s) (text ++ s') :=
  append (same text) h

theorem before (text : String) (h : Omits pieces s s') : Omits pieces (s ++ text) (s' ++ text) := by
  have happend := h.append (same text)
  rwa [List.append_nil] at happend

theorem join {items : List α} {omitted : α → List String} {text text' : α → String}
    (h : ∀ item ∈ items, Omits (omitted item) (text item) (text' item)) :
    Omits (items.flatMap omitted) (String.join (items.map text))
      (String.join (items.map text')) := by
  induction items with
  | nil => exact same _
  | cons item items ih =>
      rw [List.flatMap_cons, List.map_cons, List.map_cons, String.join_cons, String.join_cons]
      exact (h item (by simp)).append (ih fun item hitem => h item (by simp [hitem]))

theorem intercalate (between : String) {items : List α} {omitted : α → List String}
    {text text' : α → String}
    (h : ∀ item ∈ items, Omits (omitted item) (text item) (text' item)) :
    Omits (items.flatMap omitted) (between.intercalate (items.map text))
      (between.intercalate (items.map text')) := by
  induction items with
  | nil => exact same _
  | cons item items ih =>
      have hfirst := h item (by simp)
      have hrest := ih fun item hitem => h item (by simp [hitem])
      rw [List.flatMap_cons, List.map_cons, List.map_cons]
      by_cases hnil : items = []
      · subst hnil
        simpa using hfirst
      · rw [String.intercalate_cons_of_ne_nil (by simpa using hnil),
          String.intercalate_cons_of_ne_nil (by simpa using hnil)]
        exact (hfirst.before between).append hrest

theorem classText (header : String) (statics : List String) {items : List α}
    {omitted : α → List String} {text text' : α → String}
    (h : ∀ item ∈ items, Omits (omitted item) (text item) (text' item)) :
    Omits (items.flatMap omitted) (classText header statics (items.map text))
      (classText header statics (items.map text')) := by
  unfold TypeScript.classText
  rw [List.isEmpty_map, List.isEmpty_map]
  exact ((Omits.intercalate "\n" h).behind _).before _

end Omits

namespace Imports

/-- The lines of imports: the modules, and what is taken from each of them. -/
def table (imports : Imports) : List (String × List String) :=
  imports.modules.map fun module => (module, imports.names module)

/-- The text of a table of imports, with a blank line behind it unless it is empty. -/
def blockText (table : List (String × List String)) : String :=
  if table = [] then "" else
    String.join (table.map fun line => "import \x7b " ++ ", ".intercalate line.2 ++
      " \x7d from \"" ++ line.1 ++ "\";\n") ++ "\n"

theorem modules_eq_nil_iff {imports : Imports} : imports.modules = [] ↔ imports.entries = [] := by
  rw [List.eq_nil_iff_forall_not_mem, List.eq_nil_iff_forall_not_mem]
  constructor
  · intro h i hi
    exact h i.module (mem_modules.mpr ⟨i, hi, rfl⟩)
  · intro h module hmodule
    obtain ⟨i, hi, -⟩ := mem_modules.mp hmodule
    exact h i hi

theorem renderBlock_eq (imports : Imports) : imports.renderBlock = blockText imports.table := by
  rw [renderBlock, blockText, isEmpty, render, table, List.map_map]
  refine if_congr ?_ rfl rfl
  rw [List.isEmpty_iff, List.map_eq_nil_iff, modules_eq_nil_iff]

/-- Imports without some names. -/
def without (imports : Imports) (lost : List Import) : Imports :=
  ⟨imports.entries.filter fun i => i ∉ lost⟩

/-- A line of a table without some names. -/
def strike (lost : List Import) (line : String × List String) : String × List String :=
  (line.1, line.2.filter fun name => Import.mk line.1 name ∉ lost)

variable {imports : Imports} {lost : List Import}

theorem mem_entries_without {i : Import} :
    i ∈ (imports.without lost).entries ↔ i ∈ imports.entries ∧ i ∉ lost := by
  rw [without, List.mem_filter, decide_eq_true_eq]

theorem names_without (module : String) :
    (imports.without lost).names module =
      (imports.names module).filter fun name => Import.mk module name ∉ lost := by
  refine (Text.pairwise_ascending _).eq_of_mem_iff ((Text.pairwise_ascending _).filter _) ?_
  intro name
  rw [List.mem_filter, decide_eq_true_eq]
  exact (mem_names.trans mem_entries_without).trans (and_congr_left fun _ => mem_names.symm)

theorem modules_without :
    (imports.without lost).modules =
      imports.modules.filter fun module => (imports.without lost).names module ≠ [] := by
  have hall : Text.ascending ((imports.without lost).entries.map Import.module) =
      (Text.ascending (imports.entries.map Import.module)).filter
        fun module => (imports.without lost).names module ≠ [] := by
    refine (Text.pairwise_ascending _).eq_of_mem_iff ((Text.pairwise_ascending _).filter _) ?_
    intro module
    rw [List.mem_filter, decide_eq_true_eq, Text.mem_ascending, Text.mem_ascending, List.mem_map,
      List.mem_map]
    constructor
    · rintro ⟨i, hi, rfl⟩
      exact ⟨⟨i, (mem_entries_without.mp hi).1, rfl⟩, List.ne_nil_of_mem (mem_names.mpr hi)⟩
    · rintro ⟨-, hsome⟩
      obtain ⟨name, hname⟩ := List.exists_mem_of_ne_nil _ hsome
      exact ⟨⟨module, name⟩, mem_names.mp hname, rfl⟩
  rw [modules, modules, hall, List.filter_append]
  congr 1
  · exact List.filter_comm _ _ _
  · exact List.filter_comm _ _ _

theorem table_without :
    (imports.without lost).table =
      (imports.table.map (strike lost)).filter fun line => line.2 ≠ [] := by
  rw [table, modules_without, table, List.map_map, List.filter_map]
  simp only [names_without]
  rfl

end Imports

end Scaffold.TypeScript
