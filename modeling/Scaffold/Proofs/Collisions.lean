import Mathlib.Data.List.Perm.Subperm
import Scaffold.Proofs.Names
import Scaffold.Proofs.Respelling

/-!
# Names that collide

Two declarations of one kind whose names share a Pascal form cannot both be accepted, for their
files would share paths. The kebab form is not among the forms that are compared, but it
determines the others: an identifier can be replaced by its kebab form without a change to any
spelling. Names with one kebab form are therefore never accepted side by side.

A data model is refused for its names in two ways. Some name has no spelling, or two of
them get in each other's way; there is no third.
-/

namespace Scaffold

open Naming (Name)
open Schema

namespace NameTable

/-- What is apart in a table is apart for the names, in the order in which they are listed. -/
theorem Spells.pairwise_apart {table : NameTable} {names : List String} (h : table.Spells names) :
    names.Pairwise fun x y => ∀ n m, Name.ofIdentifier x = .ok n → Name.ofIdentifier y = .ok m →
      n.Apart m := by
  rw [← h.map_identifier, List.pairwise_map]
  refine h.apart.imp_of_mem fun {a b} ha hb hapart n m hn hm => ?_
  rw [h.ofIdentifier_identifier ha] at hn
  rw [h.ofIdentifier_identifier hb] at hm
  rwa [← Except.ok.inj hn, ← Except.ok.inj hm]

/-- The spellings of two listed names are apart, wherever in the list the two stand. -/
theorem Spells.apart_of_subperm {table : NameTable} {names : List String}
    (h : table.Spells names) {first second : String} (hlisted : [first, second].Subperm names)
    {n m : Name} (hn : Name.ofIdentifier first = .ok n) (hm : Name.ofIdentifier second = .ok m) :
    n.Apart m := by
  obtain ⟨listed, hperm, hsublist⟩ := hlisted
  have hsymm : ∀ {x y : String},
      (∀ n m, Name.ofIdentifier x = .ok n → Name.ofIdentifier y = .ok m → n.Apart m) →
      ∀ n m, Name.ofIdentifier y = .ok n → Name.ofIdentifier x = .ok m → n.Apart m :=
    fun hapart n m hn hm => Std.Symm.symm _ _ (hapart m n hm hn)
  have hpair := (hperm.pairwise_iff hsymm).mp (h.pairwise_apart.sublist hsublist)
  exact List.pairwise_pair.mp hpair n m hn hm

theorem exists_of_clash? {declared : Declared} {earlier : NameTable} {name : Name} {e : Error}
    (h : clash? declared earlier name = some e) : ∃ clash, e = .duplicateName declared clash := by
  rw [clash?] at h
  split at h
  · exact ⟨_, (Option.some.inj h).symm⟩
  · split at h
    · exact ⟨_, (Option.some.inj h).symm⟩
    · split at h
      · exact ⟨_, (Option.some.inj h).symm⟩
      · cases h

/-- A table cannot be built exactly if some name has no spelling or clashes with the names
before it, which have a table. -/
theorem extend_eq_error_iff {declared : Declared} {table : NameTable} {names : List String}
    {e : Error} :
    extend declared table names = .error e ↔
      ∃ before name after earlier, names = before ++ name :: after ∧
        extend declared table before = .ok earlier ∧
        (Name.ofIdentifier name = .error e ∨
          ∃ n, Name.ofIdentifier name = .ok n ∧ clash? declared earlier n = some e) := by
  induction names generalizing table with
  | nil => simp [extend]
  | cons first names ih =>
      rw [extend, bind_eq_error]
      constructor
      · rintro (hfirst | ⟨n, hn, hrest⟩)
        · exact ⟨[], first, names, table, rfl, rfl, .inl hfirst⟩
        · split at hrest
          · next e' hclash =>
              refine ⟨[], first, names, table, rfl, rfl, .inr ⟨n, hn, ?_⟩⟩
              rw [hclash, Except.error.inj hrest]
          · next hclash =>
              obtain ⟨before, name, after, earlier, rfl, hbefore, hname⟩ := ih.mp hrest
              refine ⟨first :: before, name, after, earlier, rfl, ?_, hname⟩
              refine bind_eq_ok.mpr ⟨n, hn, ?_⟩
              rw [hclash]
              exact hbefore
      · rintro ⟨before, name, after, earlier, hnames, hbefore, hname⟩
        cases before with
        | nil =>
            obtain ⟨rfl, rfl⟩ := List.cons.inj hnames
            cases hbefore
            rcases hname with hinvalid | ⟨n, hn, hclash⟩
            · exact .inl hinvalid
            · refine .inr ⟨n, hn, ?_⟩
              rw [hclash]
        | cons first' before =>
            obtain ⟨rfl, rfl⟩ := List.cons.inj hnames
            obtain ⟨n, hn, hrest⟩ := bind_eq_ok.mp hbefore
            refine .inr ⟨n, hn, ?_⟩
            split at hrest
            · cases hrest
            · exact ih.mpr ⟨before, name, after, earlier, rfl, hrest, hname⟩

theorem extend_eq_error {declared : Declared} {table : NameTable} {names : List String} {e : Error}
    (h : extend declared table names = .error e) :
    (∃ name ∈ names, Name.ofIdentifier name = .error e) ∨
      ∃ clash, e = .duplicateName declared clash := by
  obtain ⟨before, name, after, earlier, rfl, -, hname | ⟨n, -, hclash⟩⟩ := extend_eq_error_iff.mp h
  · exact .inl ⟨name, List.mem_append_right _ List.mem_cons_self, hname⟩
  · exact .inr (exists_of_clash? hclash)

end NameTable

namespace Context

/-- A data model whose names all have a spelling is refused for a clash or not at all. -/
theorem exists_of_ofDatamodel_eq_error {d : Datamodel} {config : Config} {e : Error}
    (h : ofDatamodel d config = .error e)
    (hspelled : ∀ name ∈ d.models.map Model.name ++ d.enums.map Enumeration.name,
      ∃ n, Name.ofIdentifier name = .ok n) :
    ∃ declared clash, e = .duplicateName declared clash := by
  have hclash : ∀ {declared : Declared} {names : List String},
      (∀ name ∈ names, ∃ n, Name.ofIdentifier name = .ok n) →
      NameTable.ofNames declared names = .error e →
      ∃ declared clash, e = .duplicateName declared clash := by
    intro declared names hnames herror
    rcases NameTable.extend_eq_error herror with ⟨name, hname, hrefused⟩ | ⟨clash, rfl⟩
    · obtain ⟨n, hn⟩ := hnames name hname
      rw [hn] at hrefused
      cases hrefused
    · exact ⟨declared, clash, rfl⟩
  rw [ofDatamodel, bind_eq_error] at h
  rcases h with hmodels | ⟨modelNames, -, h⟩
  · exact hclash (fun name hname => hspelled name (List.mem_append_left _ hname)) hmodels
  rw [bind_eq_error] at h
  rcases h with henums | ⟨enumNames, -, h⟩
  · exact hclash (fun name hname => hspelled name (List.mem_append_right _ hname)) henums
  split at h
  · exact ⟨_, _, (Except.error.inj h).symm⟩
  · cases h

/-- Names with one kebab form are not accepted side by side. -/
theorem exists_ofDatamodel_eq_error {d : Datamodel} (config : Config) {first second : String}
    {n m : Name} (hn : Name.ofIdentifier first = .ok n) (hm : Name.ofIdentifier second = .ok m)
    (hkebab : m.kebab = n.kebab)
    (hlisted : [first, second].Subperm (d.models.map Model.name) ∨
      [first, second].Subperm (d.enums.map Enumeration.name)) :
    ∃ e, ofDatamodel d config = .error e := by
  have hpascal : n.pascal = m.pascal := by rw [Naming.eq_of_kebab_eq hn hm hkebab]
  cases hresult : ofDatamodel d config with
  | error e => exact ⟨e, rfl⟩
  | ok c =>
      obtain ⟨rfl, -, hnamed⟩ := ofDatamodel_spec hresult
      have hapart : n.Apart m := by
        rcases hlisted with hmodels | henums
        · exact hnamed.models.apart_of_subperm hmodels hn hm
        · exact hnamed.enums.apart_of_subperm henums hn hm
      exact absurd hpascal hapart.pascal

end Context

/-- The kebab form of an identifier has all its spellings, and identifiers with one kebab form
differ in no spelling. No data model is accepted that gives two models or two enums names with
one kebab form; if all its names have a spelling, what is reported is a clash of names. -/
theorem ofIdentifier_kebab {identifier : String} {n : Name}
    (h : Name.ofIdentifier identifier = .ok n) :
    Name.ofIdentifier n.kebab = .ok { n with identifier := n.kebab } ∧
    ∀ other m, Name.ofIdentifier other = .ok m → m.kebab = n.kebab →
      m = { n with identifier := other } ∧
      ∀ (d : Datamodel) (config : Config),
        ([identifier, other].Subperm (d.models.map Model.name) ∨
          [identifier, other].Subperm (d.enums.map Enumeration.name)) →
        (∃ e, Context.ofDatamodel d config = .error e) ∧
        ((∀ name ∈ d.models.map Model.name ++ d.enums.map Enumeration.name,
            ∃ k, Name.ofIdentifier name = .ok k) →
          ∃ declared clash,
            Context.ofDatamodel d config = .error (.duplicateName declared clash)) := by
  refine ⟨Naming.ofIdentifier_kebab_eq h, fun other m hm hkebab => ?_⟩
  refine ⟨Naming.eq_of_kebab_eq h hm hkebab, fun d config hlisted => ?_⟩
  obtain ⟨e, he⟩ := Context.exists_ofDatamodel_eq_error config h hm hkebab hlisted
  refine ⟨⟨e, he⟩, fun hspelled => ?_⟩
  obtain ⟨declared, clash, rfl⟩ := Context.exists_of_ofDatamodel_eq_error he hspelled
  exact ⟨declared, clash, he⟩

/-- A data model with an acronym in two spellings, and an enum between them. -/
def acronymDatamodel : Datamodel where
  enums := [⟨"HttpLog", ["A"], none, none⟩]
  models := [
    ⟨"HTTPLog", none, [], none, [], none⟩,
    ⟨"User2", none, [], none, [], none⟩,
    ⟨"http_Log", none, [], none, [], none⟩]

theorem ofIdentifier_kebab_acronymDatamodel :
    ∃ n m declared clash, Name.ofIdentifier "http_Log" = .ok n ∧ n.kebab = "http-log" ∧
      Name.ofIdentifier "HTTPLog" = .ok m ∧ m = { n with identifier := "HTTPLog" } ∧
      Name.ofIdentifier "http-log" = .ok { n with identifier := "http-log" } ∧
      Context.ofDatamodel acronymDatamodel .standard = .error (.duplicateName declared clash) := by
  have hn := Naming.ofIdentifier_eq_ok.mpr
    ⟨(by decide : Naming.isSpellable "http_Log".toList = true), rfl⟩
  have hm := Naming.ofIdentifier_eq_ok.mpr
    ⟨(by decide : Naming.isSpellable "HTTPLog".toList = true), rfl⟩
  obtain ⟨hkebab, hothers⟩ := ofIdentifier_kebab hn
  obtain ⟨hsame, hcollides⟩ := hothers _ _ hm (by decide)
  have hlisted : ["http_Log", "HTTPLog"].Subperm (acronymDatamodel.models.map Model.name) :=
    ⟨["HTTPLog", "http_Log"], .swap _ _ _, by decide⟩
  have hspelled : ∀ name ∈ acronymDatamodel.models.map Model.name ++
      acronymDatamodel.enums.map Enumeration.name, ∃ k, Name.ofIdentifier name = .ok k := by
    have hspellable : ∀ name ∈ acronymDatamodel.models.map Model.name ++
        acronymDatamodel.enums.map Enumeration.name,
        Naming.isSpellable name.toList = true := by decide
    intro name hname
    exact ⟨_, Naming.ofIdentifier_eq_ok.mpr ⟨hspellable name hname, rfl⟩⟩
  obtain ⟨declared, clash, hclash⟩ :=
    (hcollides acronymDatamodel .standard (.inl hlisted)).2 hspelled
  exact ⟨_, _, declared, clash, hn, by decide, hm, hsame, hkebab, hclash⟩

end Scaffold
