import Mathlib.Data.List.TakeWhile
import Scaffold.Proofs.Converters
import Scaffold.Proofs.Locality
import Scaffold.Proofs.Respelling

/-!
# Models behind one property of the client

The client of the database gives access to a model under the model's own name with a small first
letter. The spellings that are compared when names are accepted are made from the words of a name,
and where words begin depends on the case of the first letter too. So two accepted models can have
one property of the client between them. Their names differ in the case of the first letter alone,
and behind it stands, past digits perhaps, a capital that no small letter follows, as in `AB` and
`aB`. Behind a small letter that capital begins a word of its own; behind a capital it does not.

There are no other such models. Whatever else stands behind the first letter, both names are read
as the same words and have one Pascal form. The induction is on the characters behind it, with
`respell` for the spelling of either name.
-/

namespace Scaffold

open Naming (Name)
open Schema

namespace Naming

/-- A digit is no letter of either case. -/
theorem caseless_of_isDigit {c : Char} (h : c.isDigit = true) :
    c.isLower = false ∧ c.isUpper = false :=
  forall_ascii (P := fun c => c.isDigit = true → c.isLower = false ∧ c.isUpper = false)
    (by decide +kernel) (toNat_lt_of_isAlphanum (by simp [isAlphanum_eq, h])) h

/-- Two characters with one small letter are the same, or one is the small letter of the other. -/
theorem toLower_eq_toLower_iff {c d : Char} :
    c.toLower = d.toLower ↔
      c = d ∨ (c.isUpper = true ∧ d = c.toLower) ∨ (d.isUpper = true ∧ c = d.toLower) := by
  constructor
  · intro h
    cases hc : c.isUpper with
    | true =>
        cases hd : d.isUpper with
        | true =>
            have hcapital := congrArg Char.toUpper h
            rw [toUpper_toLower, toUpper_toLower,
              toUpper_of_isUpper hc, toUpper_of_isUpper hd] at hcapital
            exact .inl hcapital
        | false =>
            rw [toLower_of_not_isUpper hd] at h
            exact .inr (.inl ⟨rfl, h.symm⟩)
    | false =>
        rw [toLower_of_not_isUpper hc] at h
        cases hd : d.isUpper with
        | true => exact .inr (.inr ⟨rfl, h⟩)
        | false =>
            rw [toLower_of_not_isUpper hd] at h
            exact .inl h
  · rintro (rfl | ⟨-, rfl⟩ | ⟨-, rfl⟩)
    · rfl
    · rw [toLower_toLower]
    · rw [toLower_toLower]

/-- Whether a text begins, behind digits perhaps, with a capital that no small letter follows. -/
def beginsWithInitial (text : List Char) : Bool :=
  match text.dropWhile Char.isDigit with
  | [] => false
  | c :: rest => c.isUpper && !rest.head?.any Char.isLower

theorem beginsWithInitial_of_isDigit {c : Char} (rest : List Char) (hc : c.isDigit = true) :
    beginsWithInitial (c :: rest) = beginsWithInitial rest := by
  rw [beginsWithInitial, List.dropWhile_cons_of_pos hc, beginsWithInitial]

theorem beginsWithInitial_of_not_isDigit {c : Char} (rest : List Char) (hc : c.isDigit = false) :
    beginsWithInitial (c :: rest) = (c.isUpper && !rest.head?.any Char.isLower) := by
  rw [beginsWithInitial, List.dropWhile_cons_of_neg (Bool.eq_false_iff.mp hc)]

/-- What is behind a separator has no part in it. -/
theorem beginsWithInitial_append_separator {c : Char} (hc : c.isAlphanum = false)
    (run rest : List Char) : beginsWithInitial (run ++ c :: rest) = beginsWithInitial run := by
  simp only [isAlphanum_eq, Bool.or_eq_false_iff] at hc
  induction run with
  | nil =>
      rw [List.nil_append, beginsWithInitial_of_not_isDigit rest hc.2, hc.1.1]
      rfl
  | cons d run ih =>
      rw [List.cons_append]
      cases hd : d.isDigit with
      | true => rw [beginsWithInitial_of_isDigit _ hd, beginsWithInitial_of_isDigit _ hd, ih]
      | false =>
          rw [beginsWithInitial_of_not_isDigit _ hd, beginsWithInitial_of_not_isDigit _ hd]
          cases run with
          | nil => simp [hc.1.2]
          | cons e run => rfl

/-- A capital in front and a small letter in front make the same of a run that begins with no
initial, and of no other. -/
theorem respell_upper_eq_lower_iff {run : List Char} (h : ∀ c ∈ run, c.isAlphanum = true) :
    respell .upper run = respell .lower run ↔ beginsWithInitial run = false := by
  induction run with
  | nil => exact iff_of_true rfl rfl
  | cons c rest ih =>
      cases hdigit : c.isDigit with
      | true =>
          -- A digit leaves the case of the letter before it as it was.
          obtain ⟨hlower, hupper⟩ := caseless_of_isDigit hdigit
          have hsmall : ∀ case : Case, c.isUpper = true → beginsWord case rest = false := by
            rw [hupper]
            exact fun _ => nofun
          rw [respell_small (hsmall _), respell_small (hsmall _),
            Case.after_of_caseless _ hlower hupper, Case.after_of_caseless _ hlower hupper,
            List.cons.injEq, and_iff_right rfl, beginsWithInitial_of_isDigit rest hdigit]
          exact ih fun d hd => h d (List.mem_cons_of_mem c hd)
      | false =>
          rw [beginsWithInitial_of_not_isDigit rest hdigit]
          cases hupper : c.isUpper with
          | false =>
              have hlower : c.isLower = true := by
                have halnum := h c List.mem_cons_self
                simpa [isAlphanum_eq, hdigit, hupper] using halnum
              rw [respell_isLower _ rest hlower, respell_isLower _ rest hlower]
              exact iff_of_true rfl rfl
          | true =>
              have hafter : beginsWord .lower rest = true := rfl
              rw [respell_capital hupper hafter, Bool.true_and, Bool.not_eq_false']
              cases hnext : rest.head?.any Char.isLower with
              | true =>
                  have hbegins : beginsWord .upper rest = true := by simp [beginsWord, hnext]
                  rw [respell_capital hupper hbegins]
                  exact iff_of_true rfl rfl
              | false =>
                  have hbegins : beginsWord .upper rest = false := by simp [beginsWord, hnext]
                  rw [respell_small fun _ => hbegins]
                  refine iff_of_false (fun heq => ?_) nofun
                  exact toLower_ne_of_isUpper hupper (List.cons.inj heq).1

theorem pascalChars_append_separator {c : Char} (hc : c.isAlphanum = false)
    (first rest : List Char) :
    pascalChars (first ++ c :: rest) = pascalChars first ++ pascalChars rest := by
  rw [pascalChars, splitWords_append_separator hc, List.flatMap_append, pascalChars, pascalChars]

/-- A first letter is a capital or a small letter without a change to the Pascal form exactly if no
initial stands behind it. -/
theorem pascalChars_capital_eq_iff {first : Char} {rest : List Char}
    (hfirst : first.isUpper = true) :
    pascalChars (first :: rest) = pascalChars (first.toLower :: rest) ↔
      beginsWithInitial rest = false := by
  have hsmall := isLower_toLower_of_isUpper hfirst
  have hruns : ∀ {run : List Char}, (∀ c ∈ run, c.isAlphanum = true) →
      (pascalChars (first :: run) = pascalChars (first.toLower :: run) ↔
        beginsWithInitial run = false) := by
    intro run hrun
    have hcapital : ∀ c ∈ first :: run, c.isAlphanum = true :=
      List.forall_mem_cons.mpr ⟨by simp [isAlphanum_eq, hfirst], hrun⟩
    have hlower : ∀ c ∈ first.toLower :: run, c.isAlphanum = true :=
      List.forall_mem_cons.mpr ⟨by simp [isAlphanum_eq, hsmall], hrun⟩
    rw [pascalChars_cons hcapital, pascalChars_cons hlower, Case.after_of_isUpper _ hfirst,
      Case.after_of_isLower _ hsmall, toUpper_toLower, List.cons.injEq,
      and_iff_right rfl, respell_upper_eq_lower_iff hrun]
  have hrun : ∀ c ∈ rest.takeWhile Char.isAlphanum, c.isAlphanum = true :=
    fun c hc => List.mem_takeWhile_imp hc
  rw [← List.takeWhile_append_dropWhile (p := Char.isAlphanum) (l := rest)]
  have hseparator := List.head?_dropWhile_not Char.isAlphanum rest
  cases hbehind : rest.dropWhile Char.isAlphanum with
  | nil =>
      rw [List.append_nil]
      exact hruns hrun
  | cons c tail =>
      rw [hbehind] at hseparator
      rw [← List.cons_append, ← List.cons_append, pascalChars_append_separator hseparator,
        pascalChars_append_separator hseparator, List.append_left_inj,
        beginsWithInitial_append_separator hseparator]
      exact hruns hrun

/-- Two names that differ in the case of their first letter alone and have an initial behind it. -/
def InitialTwins (capital small : String) : Prop :=
  ∃ first rest, first.isUpper = true ∧ beginsWithInitial rest = true ∧
    capital.toList = first :: rest ∧ small.toList = first.toLower :: rest

theorem initialTwins_iff {capital small : String} {first : Char} {rest : List Char}
    (h : capital.toList = first :: rest) :
    InitialTwins capital small ↔ first.isUpper = true ∧ beginsWithInitial rest = true ∧
      small.toList = first.toLower :: rest := by
  constructor
  · rintro ⟨c, tail, hupper, hinitial, hcapital, hsmall⟩
    obtain ⟨rfl, rfl⟩ := List.cons.inj (h.symm.trans hcapital)
    exact ⟨hupper, hinitial, hsmall⟩
  · rintro ⟨hupper, hinitial, hsmall⟩
    exact ⟨first, rest, hupper, hinitial, h, hsmall⟩

instance (capital small : String) : Decidable (InitialTwins capital small) :=
  match h : capital.toList with
  | [] => .isFalse fun ⟨_, _, _, _, hcapital, _⟩ => List.cons_ne_nil _ _ (hcapital.symm.trans h)
  | _ :: _ => decidable_of_iff _ (initialTwins_iff h).symm

theorem pascal_ne_iff {capital small : String} {first : Char} {rest : List Char}
    (hfirst : first.isUpper = true) (hcapital : capital.toList = first :: rest)
    (hsmall : small.toList = first.toLower :: rest) {n m : Name}
    (hn : Name.ofIdentifier capital = .ok n) (hm : Name.ofIdentifier small = .ok m) :
    n.pascal ≠ m.pascal ↔ beginsWithInitial rest = true := by
  obtain ⟨-, rfl⟩ := ofIdentifier_eq_ok.mp hn
  obtain ⟨-, rfl⟩ := ofIdentifier_eq_ok.mp hm
  rw [ne_eq, String.ofList_inj, hcapital, hsmall, pascalChars_capital_eq_iff hfirst,
    Bool.not_eq_false]

theorem InitialTwins.pascal_ne {capital small : String} (h : InitialTwins capital small)
    {n m : Name} (hn : Name.ofIdentifier capital = .ok n) (hm : Name.ofIdentifier small = .ok m) :
    n.pascal ≠ m.pascal := by
  obtain ⟨first, rest, hfirst, hinitial, hcapital, hsmall⟩ := h
  exact (pascal_ne_iff hfirst hcapital hsmall hn hm).mpr hinitial

theorem exists_toList_eq_cons {identifier : String} {n : Name}
    (h : Name.ofIdentifier identifier = .ok n) :
    ∃ first rest, identifier.toList = first :: rest := by
  obtain ⟨-, c, hc, -⟩ := isSpellable_iff.mp (ofIdentifier_eq_ok.mp h).1
  exact List.exists_cons_of_ne_nil (List.ne_nil_of_mem hc)

end Naming

open Naming (InitialTwins)

namespace NamedModel

/-- Models with different Pascal forms have one property of the client exactly if their names are
twins. -/
theorem clientDelegate_eq_iff {m m' : NamedModel}
    (hm : Name.ofIdentifier m.model.name = .ok m.names)
    (hm' : Name.ofIdentifier m'.model.name = .ok m'.names)
    (hapart : m.names.pascal ≠ m'.names.pascal) :
    m.clientDelegate = m'.clientDelegate ↔
      InitialTwins m.model.name m'.model.name ∨ InitialTwins m'.model.name m.model.name := by
  obtain ⟨first, rest, hname⟩ := Naming.exists_toList_eq_cons hm
  obtain ⟨first', rest', hname'⟩ := Naming.exists_toList_eq_cons hm'
  rw [clientDelegate, hname, clientDelegate, hname', String.ofList_inj, List.cons.injEq,
    Naming.toLower_eq_toLower_iff]
  constructor
  · rintro ⟨rfl | ⟨hupper, rfl⟩ | ⟨hupper, rfl⟩, rfl⟩
    · have hsame : m.model.name = m'.model.name := by
        rw [← String.toList_inj, hname, hname']
      rw [hsame, hm', Except.ok.injEq] at hm
      exact absurd (by rw [hm]) hapart
    · have hinitial := (Naming.pascal_ne_iff hupper hname hname' hm hm').mp hapart
      exact .inl ⟨_, _, hupper, hinitial, hname, hname'⟩
    · have hinitial := (Naming.pascal_ne_iff hupper hname' hname hm' hm).mp hapart.symm
      exact .inr ⟨_, _, hupper, hinitial, hname', hname⟩
  · rw [Naming.initialTwins_iff hname, Naming.initialTwins_iff hname', hname, hname']
    rintro (⟨hupper, -, hsmall⟩ | ⟨hupper, -, hsmall⟩)
    · obtain ⟨rfl, rfl⟩ := List.cons.inj hsmall
      exact ⟨.inr (.inl ⟨hupper, rfl⟩), rfl⟩
    · obtain ⟨rfl, rfl⟩ := List.cons.inj hsmall
      exact ⟨.inr (.inr ⟨hupper, rfl⟩), rfl⟩

end NamedModel

namespace Artifact

variable {c : Context} {m : NamedModel}

/-- A service calls nothing but the property of its model. -/
theorem callee_of_mem_methods {s : Service} (hs : Service.ofModel c m = .ok s) :
    ∀ method ∈ s.methods, ∃ operation ∈ ["create", "findUnique", "findMany", "update", "delete"],
      method.callee = "this.prisma." ++ m.clientDelegate ++ "." ++ operation := by
  obtain ⟨client, -, key, -, rfl⟩ := service_ofModel_eq_ok.mp hs
  intro method hmethod
  cases key with
  | none =>
      simp only [Service.methodsOf, List.mem_cons, List.not_mem_nil, or_false] at hmethod
      rcases hmethod with rfl | rfl
      · exact ⟨"create", by decide, rfl⟩
      · exact ⟨"findMany", by decide, rfl⟩
  | some k =>
      simp only [Service.methodsOf, List.mem_cons, List.not_mem_nil, or_false] at hmethod
      rcases hmethod with rfl | rfl | rfl | rfl | rfl
      · exact ⟨"create", by decide, rfl⟩
      · exact ⟨"findUnique", by decide, rfl⟩
      · exact ⟨"findMany", by decide, rfl⟩
      · exact ⟨"update", by decide, rfl⟩
      · exact ⟨"delete", by decide, rfl⟩

end Artifact

/-- Two models whose names are the same initials, but for the case of the first. -/
def initialsDatamodel : Datamodel where
  enums := []
  models := [
    .plain "AB" [(Field.plain "id" (.scalar .int)).asId],
    .plain "User" [(Field.plain "id" (.scalar .int)).asId],
    .plain "aB" [(Field.plain "id" (.scalar .int)).asId]]

/-- Two accepted models may share their property of the client, and their services then call the
same methods of it. -/
theorem exists_shared_delegate :
    ∃ c m m' s s', Context.ofDatamodel initialsDatamodel .standard = .ok c ∧
      m ∈ c.namedModels ∧ m' ∈ c.namedModels ∧ m.model.name = "AB" ∧ m'.model.name = "aB" ∧
      m.clientDelegate = "aB" ∧ m'.clientDelegate = "aB" ∧
      Artifact.Service.ofModel { c with clientPaths := some ⟨⟨"."⟩, ⟨"db"⟩, "db"⟩ } m = .ok s ∧
      Artifact.Service.ofModel { c with clientPaths := some ⟨⟨"."⟩, ⟨"db"⟩, "db"⟩ } m' = .ok s' ∧
      s.className = "AbBaseService" ∧ s'.className = "ABBaseService" ∧
      s.methods.map TypeScript.Method.callee = s'.methods.map TypeScript.Method.callee :=
  ⟨_, _, _, _, _, rfl, .head _, .tail _ (.tail _ (.head _)), rfl, rfl, by decide, by decide, rfl,
    rfl, by decide, by decide, by decide⟩

/-- Two accepted models have one property of the client exactly if their names are twins, and
twins never are in each other's way: their Pascal forms differ. -/
theorem pairwise_clientDelegate {d : Datamodel} {config : Config} {c : Context}
    (h : Context.ofDatamodel d config = .ok c) :
    c.namedModels.map NamedModel.model = d.models ∧
      (c.namedModels.Pairwise fun m m' => m.names.pascal ≠ m'.names.pascal ∧
        (m.clientDelegate = m'.clientDelegate ↔
          InitialTwins m.model.name m'.model.name ∨ InitialTwins m'.model.name m.model.name)) ∧
      (∀ capital small n m, InitialTwins capital small → Name.ofIdentifier capital = .ok n →
        Name.ofIdentifier small = .ok m → n.pascal ≠ m.pascal) ∧
      ∀ m ∈ c.namedModels, ∀ paths s,
        Artifact.Service.ofModel { c with clientPaths := some paths } m = .ok s →
        ∀ method ∈ s.methods,
          ∃ operation ∈ ["create", "findUnique", "findMany", "update", "delete"],
            method.callee = "this.prisma." ++ m.clientDelegate ++ "." ++ operation := by
  obtain ⟨rfl, -, hnamed⟩ := Context.ofDatamodel_spec h
  refine ⟨hnamed.map_model, ?_, fun capital small n m htwins => htwins.pascal_ne,
    fun m _ paths s hs => Artifact.callee_of_mem_methods hs⟩
  have hapart : c.namedModels.Pairwise fun m m' => m.names.pascal ≠ m'.names.pascal := by
    have hnames := hnamed.models.apart.imp fun {a b : Name} (hab : a.Apart b) => hab.pascal
    rw [← hnamed.map_names, List.pairwise_map] at hnames
    exact hnames
  refine hapart.imp_of_mem fun {m m'} hm hm' hne => ⟨hne, ?_⟩
  exact NamedModel.clientDelegate_eq_iff (hnamed.mem_namedModels.mp hm).2
    (hnamed.mem_namedModels.mp hm').2 hne

/-- Two addresses that are twins, and a third model. -/
def addressDatamodel : Datamodel where
  enums := []
  models := [.plain "IPAddress" [], .plain "iPAddress" [], .plain "ipaddress" []]

theorem pairwise_clientDelegate_addressDatamodel :
    ∃ c m m' other, Context.ofDatamodel addressDatamodel .standard = .ok c ∧
      c.namedModels = [m, m', other] ∧ m.model.name = "IPAddress" ∧ m'.model.name = "iPAddress" ∧
      m.names.pascal ≠ m'.names.pascal ∧ m.clientDelegate = m'.clientDelegate ∧
      m.clientDelegate ≠ other.clientDelegate := by
  have hcontext : Context.ofDatamodel addressDatamodel .standard = .ok _ := rfl
  obtain ⟨-, hpairwise, -, -⟩ := pairwise_clientDelegate hcontext
  have hfirst := (List.pairwise_cons.mp hpairwise).1
  obtain ⟨hne, htwins⟩ := hfirst _ (.head _)
  obtain ⟨-, hothers⟩ := hfirst _ (.tail _ (.head _))
  refine ⟨_, _, _, _, hcontext, rfl, rfl, rfl, hne, htwins.mpr ?_, fun hsame => ?_⟩
  · exact .inl (by decide)
  · exact absurd (hothers.mp hsame) (by decide)

end Scaffold
