import Mathlib.Data.List.Induction
import Scaffold.Proofs.Records

/-!
# One index for each list of fields

A document lists the unique constraints of a model as indexes and as bare lists of names. They
are merged by going through the lists one after another, and a list adds an index unless there is
one over the same fields already, be it listed or added before. The lists are looked for among
what has been added so far, so what becomes of a list depends on those in front of it.

`Completes` says what the lists of the added indexes are without going through anything: the
lists that no listed index is over, in the order in which they first occur. One more list at the
end keeps this, whether it adds an index or not. Everything else about merging follows from it,
and so lists that have their index can come and go.
-/

namespace Scaffold.Schema

/-- The lists that need an index beside those that are listed, each once and in the order in
which they first occur. -/
structure Completes (indexes : List UniqueIndex) (lists added : List (List String)) : Prop where
  mem_iff {names : List String} :
    names ∈ added ↔ names ∈ lists ∧ names ∉ indexes.map UniqueIndex.fields
  inOrder : added.Pairwise fun names others => lists.idxOf names < lists.idxOf others

namespace Completes

variable {indexes : List UniqueIndex} {lists added : List (List String)} {names : List String}

theorem nil (indexes : List UniqueIndex) : Completes indexes [] [] :=
  ⟨by simp, .nil⟩

theorem nodup (h : Completes indexes lists added) : added.Nodup :=
  List.nodup_iff_pairwise_ne.mpr (h.inOrder.imp fun hlt heq => absurd (heq ▸ hlt) (lt_irrefl _))

/-- With the added indexes every list has its index, and no other list has. -/
theorem mem_fields_iff (h : Completes indexes lists added) :
    names ∈ (indexes ++ added.map (UniqueIndex.mk none)).map UniqueIndex.fields ↔
      names ∈ lists ∨ names ∈ indexes.map UniqueIndex.fields := by
  have hadded : (added.map (UniqueIndex.mk none)).map UniqueIndex.fields = added := by
    rw [List.map_map]
    exact List.map_id added
  rw [List.map_append, List.mem_append, hadded, h.mem_iff]
  tauto

/-- Where a list first occurs is not changed by lists behind. -/
theorem inOrder_concat (h : Completes indexes lists added) (names : List String) :
    added.Pairwise fun a b => (lists ++ [names]).idxOf a < (lists ++ [names]).idxOf b := by
  refine h.inOrder.imp_of_mem fun ha hb hlt => ?_
  rwa [List.idxOf_append_of_mem (h.mem_iff.mp ha).1, List.idxOf_append_of_mem (h.mem_iff.mp hb).1]

theorem concat_of_mem (h : Completes indexes lists added)
    (hmem : names ∈ lists ∨ names ∈ indexes.map UniqueIndex.fields) :
    Completes indexes (lists ++ [names]) added := by
  refine ⟨fun {others} => ?_, h.inOrder_concat names⟩
  rw [h.mem_iff, List.mem_append, List.mem_singleton]
  constructor
  · rintro ⟨hlists, hnot⟩
    exact ⟨.inl hlists, hnot⟩
  · rintro ⟨hlists | rfl, hnot⟩
    · exact ⟨hlists, hnot⟩
    · exact ⟨hmem.resolve_right hnot, hnot⟩

theorem concat_of_not_mem (h : Completes indexes lists added)
    (hnot : ¬ (names ∈ lists ∨ names ∈ indexes.map UniqueIndex.fields)) :
    Completes indexes (lists ++ [names]) (added ++ [names]) := by
  obtain ⟨hlists, hindexes⟩ := not_or.mp hnot
  refine ⟨fun {others} => ?_, ?_⟩
  · rw [List.mem_append, List.mem_append, h.mem_iff, List.mem_singleton]
    constructor
    · rintro (⟨hother, hfree⟩ | rfl)
      · exact ⟨.inl hother, hfree⟩
      · exact ⟨.inr rfl, hindexes⟩
    · rintro ⟨hother | rfl, hfree⟩
      · exact .inl ⟨hother, hfree⟩
      · exact .inr rfl
  · refine List.pairwise_append.mpr ⟨h.inOrder_concat names, List.pairwise_singleton _ _, ?_⟩
    intro a ha b hb
    obtain rfl := List.mem_singleton.mp hb
    have hfirst := (h.mem_iff.mp ha).1
    rw [List.idxOf_append_of_mem hfirst, List.idxOf_append_of_notMem hlists]
    exact Nat.lt_add_right _ (List.idxOf_lt_length_of_mem hfirst)

end Completes

namespace Model

variable {indexes : List UniqueIndex} {lists : List (List String)} {names : List String}

theorem mergeUniqueIndex_of_mem (h : names ∈ indexes.map UniqueIndex.fields) :
    mergeUniqueIndex indexes names = indexes := by
  rw [mergeUniqueIndex, if_pos]
  simpa using h

theorem mergeUniqueIndex_of_not_mem (h : names ∉ indexes.map UniqueIndex.fields) :
    mergeUniqueIndex indexes names = indexes ++ [⟨none, names⟩] := by
  rw [mergeUniqueIndex, if_neg]
  simpa using h

/-- Merging adds an unnamed index for each list that needs one. -/
theorem exists_completes (indexes : List UniqueIndex) (lists : List (List String)) :
    ∃ added, Completes indexes lists added ∧
      lists.foldl mergeUniqueIndex indexes = indexes ++ added.map (UniqueIndex.mk none) := by
  -- From the back, because a list is merged with all that stand in front of it.
  induction lists using List.reverseRecOn with
  | nil => exact ⟨[], .nil indexes, (List.append_nil indexes).symm⟩
  | append_singleton lists names ih =>
      obtain ⟨added, hcompletes, hmerged⟩ := ih
      rw [List.foldl_append, hmerged, List.foldl_cons, List.foldl_nil]
      by_cases hmem : names ∈ lists ∨ names ∈ indexes.map UniqueIndex.fields
      · refine ⟨added, hcompletes.concat_of_mem hmem, ?_⟩
        exact mergeUniqueIndex_of_mem (hcompletes.mem_fields_iff.mpr hmem)
      · refine ⟨added ++ [names], hcompletes.concat_of_not_mem hmem, ?_⟩
        rw [mergeUniqueIndex_of_not_mem (mt hcompletes.mem_fields_iff.mp hmem), List.map_append,
          List.append_assoc]
        rfl

theorem mem_fields_foldl :
    names ∈ (lists.foldl mergeUniqueIndex indexes).map UniqueIndex.fields ↔
      names ∈ lists ∨ names ∈ indexes.map UniqueIndex.fields := by
  obtain ⟨added, hcompletes, hmerged⟩ := exists_completes indexes lists
  rw [hmerged]
  exact hcompletes.mem_fields_iff

/-- Lists that have their index already add none. -/
theorem foldl_mergeUniqueIndex (h : ∀ names ∈ lists, names ∈ indexes.map UniqueIndex.fields) :
    lists.foldl mergeUniqueIndex indexes = indexes := by
  obtain ⟨added, hcompletes, hmerged⟩ := exists_completes indexes lists
  obtain rfl : added = [] := by
    refine List.eq_nil_iff_forall_not_mem.mpr fun names hnames => ?_
    obtain ⟨hlists, hnot⟩ := hcompletes.mem_iff.mp hnames
    exact hnot (h names hlists)
  rw [hmerged, List.map_nil, List.append_nil]

/-- Lists that have their index where they stand may as well be left out. -/
theorem foldl_mergeUniqueIndex_insert {before more : List (List String)}
    (h : ∀ names ∈ more, names ∈ before ∨ names ∈ indexes.map UniqueIndex.fields)
    (after : List (List String)) :
    (before ++ more ++ after).foldl mergeUniqueIndex indexes =
      (before ++ after).foldl mergeUniqueIndex indexes := by
  rw [List.foldl_append, List.foldl_append, List.foldl_append,
    foldl_mergeUniqueIndex fun names hnames => mem_fields_foldl.mpr (h names hnames)]

end Model

end Scaffold.Schema

namespace Scaffold.Document

open Json (Value)
open Schema

/-- A row of a model with the lists that its record holds, as indexes and as bare lists. -/
structure ListsUnique (v : Value) (row : ModelRow) : Prop where
  accepted : record "RawModel" modelColumns v = .ok row
  held : ∃ place, IsRow v place ∧
    Cell (list readUniqueIndex) (some []) (place.cell? "uniqueIndexes" 4) row.uniqueIndexes ∧
    Cell (list (list string)) (some []) (place.cell? "uniqueFields" 5) row.uniqueFields

theorem exists_listsUnique {v : Value} {m : Model} (h : readModel v = .ok m) :
    ∃ row, ListsUnique v row ∧ row.model = m := by
  obtain ⟨row, hrow, hmodel⟩ := map_eq_ok.mp h
  obtain ⟨place, hplace, hread⟩ := exists_row_of_record hrow
  refine ⟨row, ⟨hrow, place, hplace, ?_⟩, hmodel⟩
  simp only [modelColumns, Columns.reads_seq, Columns.reads_map, Columns.reads_required,
    Columns.reads_defaulted, Columns.reads_optional] at hread
  obtain ⟨_, -, _, -, _, -, _, -, indexes, hindexes, lists, hlists, _, -, rfl⟩ := hread
  exact ⟨hindexes, hlists⟩

/-- The unique indexes of a model that was read are those that are listed, in order, and behind
them an unnamed one for each bare list that none of these is over, each once and in the order in
which they first occur. So there is an index for every list and for no other, and a document that
repeats lists for which there is an index gives the same model. -/
theorem readModel_uniqueIndexes {v : Value} {m : Model} (h : readModel v = .ok m) :
    ∃ row, ListsUnique v row ∧
      (∃ added : List (List String),
        m.uniqueIndexes = row.uniqueIndexes ++ added.map (UniqueIndex.mk none) ∧ added.Nodup ∧
        (∀ names, names ∈ added ↔
          names ∈ row.uniqueFields ∧ ∀ index ∈ row.uniqueIndexes, index.fields ≠ names) ∧
        added.Pairwise fun names others =>
          row.uniqueFields.idxOf names < row.uniqueFields.idxOf others) ∧
      (∀ names, (∃ index ∈ m.uniqueIndexes, index.fields = names) ↔
        names ∈ row.uniqueFields ∨ ∃ index ∈ row.uniqueIndexes, index.fields = names) ∧
      ∀ before more after v', row.uniqueFields = before ++ after →
        (∀ names ∈ more, names ∈ before ∨ ∃ index ∈ row.uniqueIndexes, index.fields = names) →
        record "RawModel" modelColumns v' =
          .ok { row with uniqueFields := before ++ more ++ after } →
        readModel v' = .ok m := by
  obtain ⟨row, hrow, rfl⟩ := exists_listsUnique h
  refine ⟨row, hrow, ?_, fun names => ?_, ?_⟩
  · obtain ⟨added, hcompletes, hmerged⟩ :=
      Model.exists_completes row.uniqueIndexes row.uniqueFields
    refine ⟨added, hmerged, hcompletes.nodup, fun names => ?_, hcompletes.inOrder⟩
    rw [hcompletes.mem_iff, List.mem_map]
    simp
  · rw [← List.mem_map, ← List.mem_map]
    exact Model.mem_fields_foldl
  · intro before more after v' hlists hmore hv'
    refine map_eq_ok.mpr ⟨_, hv', ?_⟩
    have hmerged := Model.foldl_mergeUniqueIndex_insert
      (fun names hnames => (hmore names hnames).imp_right List.mem_map.mpr) after
    rw [ModelRow.model, ModelRow.model, hlists, hmerged]

/-- A record of a model with one index and with bare lists of names. -/
def seatRecord (lists : List (List String)) : Value :=
  let encode (names : List String) : Value := .array (names.map .string)
  .object [("fields", .array []), ("name", .string "Seat"),
    ("uniqueFields", .array (lists.map encode)),
    ("uniqueIndexes", .array [
      .object [("fields", encode ["row", "number"]), ("name", .string "place")]])]

theorem readModel_uniqueIndexes_seatRecord :
    ∃ m, readModel (seatRecord [["code"], ["row", "number"], ["code"], ["number", "row"]]) = .ok m ∧
      m.uniqueIndexes =
        [⟨some "place", ["row", "number"]⟩, ⟨none, ["code"]⟩, ⟨none, ["number", "row"]⟩] ∧
      readModel (seatRecord [["code"], ["row", "number"], ["code"], ["row", "number"], ["code"],
        ["number", "row"]]) = .ok m := by
  have hread : record "RawModel" modelColumns
      (seatRecord [["code"], ["row", "number"], ["code"], ["number", "row"]]) =
        .ok ⟨"Seat", none, [], none, [⟨some "place", ["row", "number"]⟩],
          [["code"], ["row", "number"], ["code"], ["number", "row"]], none⟩ := rfl
  obtain ⟨row, hrow, -, -, hagain⟩ := readModel_uniqueIndexes (map_eq_ok.mpr ⟨_, hread, rfl⟩)
  cases hrow.accepted.symm.trans hread
  refine ⟨_, rfl, by decide, ?_⟩
  exact hagain [["code"], ["row", "number"]] [["code"], ["row", "number"]]
    [["code"], ["number", "row"]] _ rfl (by decide) rfl

end Scaffold.Document
