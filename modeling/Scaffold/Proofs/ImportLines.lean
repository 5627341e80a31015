import Scaffold.Proofs.Bytes
import Scaffold.Proofs.Comments
import Scaffold.Proofs.Omission

/-!
# The lines of imports

The imports of a file are asked for one by one, in an order that comes from the way in which the
file is put together, and some of them several times. Their text depends on none of this. It is
written from a table with a row for each module, and what the table holds is said by membership
alone: a row for each module that something was asked for from, and in it the names that were
asked for. Modules and names have one order each, so there is one table for a set of imports.

The order of the modules has two levels. `Precedes` puts packages before the modules of the tree
and goes by bytes within both groups.
-/

namespace Scaffold.TypeScript.Imports

open Text (IsLine bytes bytes_lt_bytes_iff)

/-- The imports of a file that asks for them one after another. -/
def ofRequests (requests : List Import) : Imports :=
  requests.foldl add empty

theorem ofRequests_eq (requests : List Import) : ofRequests requests = ⟨requests⟩ := by
  suffices h : ∀ asked : List Import, requests.foldl add ⟨asked⟩ = ⟨asked ++ requests⟩ from h []
  induction requests with
  | nil => exact fun asked => by rw [List.foldl_nil, List.append_nil]
  | cons request requests ih =>
      intro asked
      rw [List.foldl_cons, add, ih, List.append_assoc]
      rfl

variable {imports imports' : Imports}

theorem table_congr (h : ∀ i, i ∈ imports.entries ↔ i ∈ imports'.entries) :
    imports.table = imports'.table := by
  have hall : Text.ascending (imports.entries.map Import.module) =
      Text.ascending (imports'.entries.map Import.module) := by
    refine Text.ascending_congr fun module => ?_
    simp only [List.mem_map, h]
  have hnames : imports.names = imports'.names := by
    funext module
    refine Text.ascending_congr fun name => ?_
    simp only [List.mem_map, List.mem_filter, h]
  rw [table, table, modules, modules, hall, hnames]

theorem map_fst_table (imports : Imports) : imports.table.map Prod.fst = imports.modules := by
  rw [table, List.map_map]
  exact List.map_id _

/-- A module has its line in front of that of another: it is a package and the other one is
not, or they are alike in this and its bytes come first. -/
def Precedes (module other : String) : Prop :=
  (isRelative module = false ∧ isRelative other = true) ∨
    (isRelative module = isRelative other ∧ bytes module < bytes other)

theorem pairwise_modules (imports : Imports) : imports.modules.Pairwise Precedes := by
  have hall := Text.pairwise_ascending (imports.entries.map Import.module)
  have hgroup : ∀ relative : Bool,
      (Text.ascending (imports.entries.map Import.module)).Pairwise fun module other =>
        isRelative module = relative → isRelative other = relative → Precedes module other :=
    fun relative => hall.imp fun hlt hmodule hother =>
      .inr ⟨hmodule.trans hother.symm, bytes_lt_bytes_iff.mpr hlt⟩
  rw [modules]
  refine List.pairwise_append.mpr ⟨?_, ?_, ?_⟩
  · refine List.pairwise_filter.mpr ((hgroup false).imp fun h ha hb => h ?_ ?_)
    · simpa using ha
    · simpa using hb
  · exact List.pairwise_filter.mpr (hgroup true)
  · intro module hpackage other htree
    refine .inl ⟨?_, (List.mem_filter.mp htree).2⟩
    simpa using (List.mem_filter.mp hpackage).2

/-- A row of a table as a line of text. -/
def importLine (row : String × List String) : String :=
  "import \x7b " ++ ", ".intercalate row.2 ++ " \x7d from \"" ++ row.1 ++ "\";"

theorem render_eq (imports : Imports) :
    imports.render = String.join (imports.table.map fun row => importLine row ++ "\n") := by
  rw [render, table, List.map_map]
  refine congrArg String.join (List.map_congr_left fun module _ => ?_)
  rw [line, Function.comp_apply, importLine, ← String.toList_inj]
  simp

theorem isLine_importLine {row : String × List String} (hmodule : IsLine row.1)
    (hnames : ∀ name ∈ row.2, IsLine name) : IsLine (importLine row) := by
  have hopening : IsLine "import \x7b " := ⟨by decide, by decide⟩
  have hbetween : IsLine " \x7d from \"" := ⟨by decide, by decide⟩
  have hlisted : IsLine (", ".intercalate row.2) := .intercalate ⟨by decide, by decide⟩ hnames
  exact (((hopening.append hlisted).append hbetween).append hmodule).append
    ⟨by decide, by decide⟩

/-- Names without line ends leave each row of the table on one line. -/
theorem lines_render (h : ∀ i ∈ imports.entries, IsLine i.module ∧ IsLine i.name) :
    Text.lines imports.render = imports.table.map importLine := by
  have hlines : ∀ line ∈ imports.table.map importLine, IsLine line := by
    intro line hline
    obtain ⟨row, hrow, rfl⟩ := List.mem_map.mp hline
    obtain ⟨module, hmodule, rfl⟩ := List.mem_map.mp hrow
    obtain ⟨i, hi, rfl⟩ := mem_modules.mp hmodule
    exact isLine_importLine (h i hi).1 fun name hname => (h _ (mem_names.mp hname)).2
  have hrender : imports.render =
      String.join ((imports.table.map importLine).map fun line => line ++ "\n") := by
    rw [render_eq, List.map_map]
    rfl
  rw [hrender, Text.lines_join_newline hlines]

/-- The text of imports depends on which imports were asked for, and neither on the order nor on
repetitions. It has one line for each module that something was asked for from, with the names
that were, each once and in ascending order of their bytes. Packages come before modules of the
tree, and within both groups the bytes of the modules ascend. -/
theorem render_ofRequests (requests : List Import) :
    (∀ others, (∀ i, i ∈ others ↔ i ∈ requests) →
      (ofRequests others).render = (ofRequests requests).render) ∧
    ∃ table : List (String × List String),
      (ofRequests requests).render = String.join (table.map fun row => importLine row ++ "\n") ∧
      ((∀ i ∈ requests, IsLine i.module ∧ IsLine i.name) →
        Text.lines (ofRequests requests).render = table.map importLine) ∧
      (∀ module, module ∈ table.map Prod.fst ↔ ∃ i ∈ requests, i.module = module) ∧
      (table.map Prod.fst).Nodup ∧ (table.map Prod.fst).Pairwise Precedes ∧
      ∀ row ∈ table, row.2.Nodup ∧ (row.2.Pairwise fun name other => bytes name < bytes other) ∧
        ∀ name, name ∈ row.2 ↔ ⟨row.1, name⟩ ∈ requests := by
  rw [ofRequests_eq]
  refine ⟨fun others hsame => ?_, Imports.table ⟨requests⟩, render_eq _, lines_render, ?_⟩
  · rw [ofRequests_eq, render_eq, render_eq, table_congr hsame]
  · rw [map_fst_table]
    refine ⟨fun module => mem_modules, nodup_modules _, pairwise_modules _, fun row hrow => ?_⟩
    obtain ⟨module, -, rfl⟩ := List.mem_map.mp hrow
    refine ⟨Text.nodup_ascending _, ?_, fun name => mem_names⟩
    exact (Text.pairwise_ascending _).imp bytes_lt_bytes_iff.mpr

/-- What a file with a property of an enum type and one of another model asks for. -/
def roleRequests : List Import :=
  [⟨"../post/PostBase", "PostBase"⟩, ⟨"@nestjs/swagger", "ApiPropertyOptional"⟩,
    ⟨"../enums/Role", "Role"⟩, ⟨"@nestjs/swagger", "ApiProperty"⟩, ⟨"../enums/Role", "Role"⟩]

theorem render_ofRequests_roleRequests :
    (∀ i ∈ roleRequests, IsLine i.module ∧ IsLine i.name) ∧
      (ofRequests (roleRequests.reverse ++ roleRequests)).render =
        "import \x7b ApiProperty, ApiPropertyOptional \x7d from \"@nestjs/swagger\";\n" ++
          "import \x7b Role \x7d from \"../enums/Role\";\n" ++
          "import \x7b PostBase \x7d from \"../post/PostBase\";\n" ∧
      ∃ table : List (String × List String),
        Text.lines (ofRequests roleRequests).render = table.map importLine ∧
        (table.map Prod.fst).Pairwise Precedes ∧ "../enums/Role" ∈ table.map Prod.fst := by
  have hline : ∀ i ∈ roleRequests, IsLine i.module ∧ IsLine i.name := by
    simp only [IsLine]
    decide
  obtain ⟨hsame, table, -, hlines, hmodules, -, hprecedes, -⟩ := render_ofRequests roleRequests
  refine ⟨hline, (hsame _ fun i => ?_).trans (by decide +kernel), table, hlines hline, hprecedes, ?_⟩
  · simp
  · exact (hmodules _).mpr ⟨⟨"../enums/Role", "Role"⟩, by decide, rfl⟩

end Scaffold.TypeScript.Imports
