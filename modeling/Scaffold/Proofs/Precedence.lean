import Scaffold.CommandLine.Run
import Scaffold.Proofs.Settings

/-!
# Which place decides a setting

A part of the configuration may be said in several places. They are its layers, from the command
line down to the settings of the document, and what the topmost layer means that means anything
is what holds; the standard is left if none does. `Settled` is this rule. Each of the five parts
follows it on its own, with layers of its own.

The rule has nothing to do with failures, for a setting that is refused fails even where a layer
above it would have decided. What fails and what does not is put apart from it, in terms of
single settings.

A reader of documents puts the settings in ascending order, and all this rests on that order.
-/

namespace Scaffold

open CommandLine (Arguments Switch configure)
open Document (Columns EnvValue Environment Generator Options Reader Row record)
open Json (Ascending Value)

namespace Document

/-- A record whose cells are in order. -/
def Row.Ordered (row : Row) : Prop :=
  ∀ key position v, row.cell? key position = some v → v.Ordered

theorem exists_ordered_row {name : String} {columns : Columns α} {v : Value} {a : α}
    (h : record name columns v = .ok a) (hv : v.Ordered) :
    ∃ row : Row, row.Ordered ∧ columns.Reads row 0 fun b => b = a := by
  obtain ⟨row, hrow, hread⟩ := exists_row_of_record h
  refine ⟨row, fun key position w hw => ?_, hread⟩
  cases hrow with
  | object members =>
      obtain ⟨before, after, rfl, -⟩ := List.lookup_eq_some_iff.mp hw
      exact hv.members.values (key, w) (by simp)
  | array elements =>
      cases hv with
      | array helements => exact helements w (List.mem_of_getElem? hw)

theorem Row.Ordered.cell_cases {row : Row} (hrow : row.Ordered) {reader : Reader α}
    {absent : Option α} {key : String} {position : Nat} {a : α}
    (h : Cell reader absent (row.cell? key position) a) :
    absent = some a ∨ ∃ v : Value, v.Ordered ∧ reader v = .ok a := by
  cases hheld : row.cell? key position with
  | none =>
      rw [hheld] at h
      exact .inl h
  | some v =>
      rw [hheld] at h
      exact .inr ⟨v, hrow key position v hheld, h⟩

theorem ascending_of_readGenerator {v : Value} {g : Generator} (h : readGenerator v = .ok g)
    (hv : v.Ordered) : Ascending g.config := by
  obtain ⟨row, hrow, hread⟩ := exists_ordered_row h hv
  simp only [Columns.reads_seq, Columns.reads_map, Columns.reads_defaulted,
    Columns.reads_optional] at hread
  obtain ⟨_, -, _, -, _, -, settings, hcell, rfl⟩ := hread
  rcases hrow.cell_cases hcell with habsent | ⟨w, hw, hmap⟩
  · rw [← Option.some.inj habsent]
    exact .nil
  · cases w with
    | object members =>
        cases hmap
        exact hw.members.keys
    | null | bool b | number n | string s | array items => cases hmap

theorem Options.ascending_of_ofText {text : String} {o : Options} (h : ofText text = .ok o) :
    Ascending o.generator.config := by
  rw [ofText] at h
  split at h
  · cases h
  · next v hv =>
      have hordered : v.Ordered := Value.ordered_of_read? hv
      rw [ofValue.eq_def] at h
      split at h
      · split at h
        · obtain ⟨row, hrow, hread⟩ := exists_ordered_row (mapError_eq_ok.mp h) hordered
          simp only [Columns.reads_seq, Columns.reads_map, Columns.reads_required,
            Columns.reads_defaulted, Columns.reads_optional] at hread
          obtain ⟨_, -, generator, hcell, _, -, _, -, rfl⟩ := hread
          rcases hrow.cell_cases hcell with habsent | ⟨w, hw, hgenerator⟩
          · rw [← Option.some.inj habsent]
            exact .nil
          · exact ascending_of_readGenerator hgenerator hw
        · split at h
          · obtain ⟨d, -, rfl⟩ := map_eq_ok.mp (mapError_eq_ok.mp h)
            exact .nil
          · cases h
      · cases h

end Document

/-- What holds where some layers may each mean something, the topmost layer first. -/
inductive Settled {α : Type} (standard : α) : List (α → Prop) → α → Prop
  | bottom : Settled standard [] standard
  | decided {layer : α → Prop} {below : List (α → Prop)} {a : α} (h : layer a) :
      Settled standard (layer :: below) a
  | silent {layer : α → Prop} {below : List (α → Prop)} {a : α} (h : ∀ b, ¬ layer b)
      (hbelow : Settled standard below a) : Settled standard (layer :: below) a

theorem Settled.unique {standard : α} {layers : List (α → Prop)} {a b : α}
    (hlayers : ∀ layer ∈ layers, ∀ a b, layer a → layer b → a = b)
    (ha : Settled standard layers a) (hb : Settled standard layers b) : a = b := by
  induction ha with
  | bottom =>
      cases hb
      rfl
  | @decided layer below a h =>
      cases hb with
      | decided h' => exact hlayers layer List.mem_cons_self a b h h'
      | silent hnone => exact absurd h (hnone a)
  | @silent layer below a hnone _ ih =>
      cases hb with
      | decided h' => exact absurd h' (hnone b)
      | silent _ hbelow => exact ih (fun other hother =>
          hlayers other (List.mem_cons_of_mem layer hother)) hbelow

theorem Settled.override {standard : α} {layers : List (α → Prop)} {a : α} (o : Option α)
    (h : Settled standard layers a) :
    Settled standard ((fun b => o = some b) :: layers) (o.getD a) := by
  cases o with
  | none => exact .silent nofun h
  | some b => exact .decided rfl

/-- What the setting of a document under a key means. -/
def Document.Options.Gives (o : Options) (key : String) (means : Value → α → Prop) (x : α) :
    Prop :=
  ∃ v, (key, v) ∈ o.generator.config ∧ means v x

namespace Config

variable {a : Arguments} {options : Options} {env : Environment} {config : Config} {e : Error}

/-- A configuration every part of which is settled by the layers that it has: what the command
line asks for, for the output directory the output that the document gives to its generator,
and what the document sets. -/
structure IsEffective (a : Arguments) (options : Options) (env : Environment) (config : Config) :
    Prop where
  outputDir : Settled standard.outputDir
    [fun p => a.output.map Path.mk = some p, options.GivesOutput env,
      options.Gives "output" Names] config.outputDir
  switch : ∀ s : Switch, Settled (standard.switch s)
    [fun b => a.getSwitch s = some b, options.Gives s.key Means] (config.switch s)

theorem ext_switch {c c' : Config} (houtput : c.outputDir = c'.outputDir)
    (hswitch : ∀ s, c.switch s = c'.switch s) : c = c' := by
  obtain ⟨outputDir, makeIndexFile, dryRun, separateRelationFields, useSwagger⟩ := c
  obtain rfl : outputDir = c'.outputDir := houtput
  obtain rfl : makeIndexFile = c'.makeIndexFile := hswitch .makeIndexFile
  obtain rfl : dryRun = c'.dryRun := hswitch .dryRun
  obtain rfl : separateRelationFields = c'.separateRelationFields :=
    hswitch .separateRelationFields
  obtain rfl : useSwagger = c'.useSwagger := hswitch .useSwagger
  rfl

theorem Means.unique {v : Value} {b b' : Bool} (h : Means v b) (h' : Means v b') : b = b' :=
  Option.some.inj ((truth?_eq_some_iff.mpr h).symm.trans (truth?_eq_some_iff.mpr h'))

theorem Names.unique {v : Value} {p p' : Path} (h : Names v p) (h' : Names v p') : p = p' := by
  cases h
  cases h'
  rfl

theorem unique_gives (hkeys : Ascending options.generator.config) {key : String}
    {means : Value → α → Prop} {x y : α} (hx : options.Gives key means x)
    (hy : options.Gives key means y) (hmeans : ∀ {v x y}, means v x → means v y → x = y) :
    x = y := by
  obtain ⟨v, hv, hx⟩ := hx
  obtain ⟨w, hw, hy⟩ := hy
  have hnodup : (options.generator.config.map Prod.fst).Nodup := hkeys.imp fun hlt => ne_of_lt hlt
  obtain rfl := (Prod.mk.inj (List.inj_on_of_nodup_map hnodup hv hw rfl)).2
  exact hmeans hx hy

/-- The layers leave no choice. -/
theorem IsEffective.unique {config' : Config} (hkeys : Ascending options.generator.config)
    (h : IsEffective a options env config) (h' : IsEffective a options env config') :
    config = config' := by
  refine ext_switch (Settled.unique ?_ h.outputDir h'.outputDir) fun s =>
    Settled.unique ?_ (h.switch s) (h'.switch s)
  · simp only [List.forall_mem_cons, List.not_mem_nil, false_imp_iff, forall_const, and_true]
    exact ⟨fun p q hp hq => Option.some.inj (hp.symm.trans hq),
      fun p q hp hq => hp.unique hq,
      fun p q hp hq => unique_gives hkeys hp hq Names.unique⟩
  · simp only [List.forall_mem_cons, List.not_mem_nil, false_imp_iff, forall_const, and_true]
    exact ⟨fun b b' hb hb' => Option.some.inj (hb.symm.trans hb'),
      fun b b' hb hb' => unique_gives hkeys hb hb' Means.unique⟩

/-- After all settings of a document a part is what its own setting means. -/
theorem IsSetBy.settled {part : Config → α} {key : String} {means : Value → α → Prop}
    (h : IsSetBy part key means) (hkeys : Ascending options.generator.config) {c c' : Config}
    (hset : c.setAll options.generator.config = .ok c') :
    Settled (part c) [options.Gives key means] (part c') := by
  by_cases hkey : key ∈ options.generator.config.map Prod.fst
  · obtain ⟨⟨name, v⟩, hmem, rfl⟩ := List.mem_map.mp hkey
    exact .decided ⟨v, hmem, h.of_mem hkeys hset hmem⟩
  · rw [h.kept hkey hset]
    exact .silent (fun x ⟨v, hmem, _⟩ => hkey (List.mem_map_of_mem hmem)) .bottom

/-- What a document asks for is effective where the command line asks for nothing. -/
theorem settled_ofOptions (hkeys : Ascending options.generator.config)
    (h : ofOptions options env = .ok config) :
    Settled standard.outputDir [options.GivesOutput env, options.Gives "output" Names]
        config.outputDir ∧
      ∀ s : Switch, Settled (standard.switch s) [options.Gives s.key Means] (config.switch s) := by
  obtain ⟨c, hset, ⟨hnone, rfl⟩ | ⟨p, hp, rfl⟩⟩ := ofOptions_eq_ok_iff.mp h
  · refine ⟨.silent (fun p ⟨output, houtput, _⟩ => ?_) (isSetBy_outputDir.settled hkeys hset),
      fun s => (isSetBy_switch s).settled hkeys hset⟩
    rw [hnone] at houtput
    cases houtput
  · refine ⟨.decided hp, fun s => ?_⟩
    have hkept : ({ c with outputDir := p } : Config).switch s = c.switch s := by
      cases s <;> rfl
    rw [hkept]
    exact (isSetBy_switch s).settled hkeys hset

theorem switch_applyTo (a : Arguments) (c : Config) (s : Switch) :
    (a.overrides.applyTo c).switch s = (a.getSwitch s).getD (c.switch s) := by
  cases s <;> rfl

theorem isEffective_of_configure (hkeys : Ascending options.generator.config)
    (h : configure a options env = .ok config) : IsEffective a options env config := by
  obtain ⟨c, hc, rfl⟩ := map_eq_ok.mp h
  obtain ⟨houtput, hswitch⟩ := settled_ofOptions hkeys hc
  refine ⟨houtput.override (a.output.map Path.mk), fun s => ?_⟩
  rw [switch_applyTo]
  exact (hswitch s).override (a.getSwitch s)

end Config

namespace Document

/-- A document in which nothing is refused and from which nothing is missing. -/
structure Options.Configures (o : Options) (env : Environment) : Prop where
  settings : ∀ setting ∈ o.generator.config, Config.Accepts setting.1 setting.2
  output : ∀ output, o.generator.output = some output → ∃ text, output.Resolves env text

/-- What is reported of a document that does not give a configuration: the refused setting
with the least key or, if no setting is refused, what its output lacks. -/
inductive Options.Misconfigures (o : Options) (env : Environment) : Error → Prop
  | setting {key : String} {v : Value} {e : Error} (hmem : (key, v) ∈ o.generator.config)
      (hrefused : Config.Refuses key v e)
      (hleast : ∀ setting ∈ o.generator.config, setting.1 < key →
        Config.Accepts setting.1 setting.2) : Misconfigures o env e
  | output {output : EnvValue} {e : Error}
      (hsettings : ∀ setting ∈ o.generator.config, Config.Accepts setting.1 setting.2)
      (houtput : o.generator.output = some output)
      (hlacks : output.Lacks env "generator output" e) : Misconfigures o env e

/-- A document without the settings that are not known. -/
def Options.knownOnly (o : Options) : Options :=
  { o with generator := { o.generator with
      config := o.generator.config.filter fun setting => setting.1 ∈ Config.knownKeys } }

end Document

namespace Config

variable {options : Options} {env : Environment} {e : Error}

theorem exists_ofOptions_eq_ok_iff :
    (∃ config, ofOptions options env = .ok config) ↔ options.Configures env := by
  simp only [ofOptions_eq_ok_iff]
  constructor
  · rintro ⟨config, c, hset, hconfig⟩
    refine ⟨exists_setAll_iff.mp ⟨c, hset⟩, fun output houtput => ?_⟩
    rcases hconfig with ⟨hnone, -⟩ | ⟨p, ⟨given, hgiven, hresolves⟩, -⟩
    · rw [houtput] at hnone
      cases hnone
    · obtain rfl := Option.some.inj (houtput.symm.trans hgiven)
      exact ⟨p.text, hresolves⟩
  · rintro ⟨hsettings, hresolves⟩
    obtain ⟨c, hset⟩ := exists_setAll_iff.mpr hsettings
    cases houtput : options.generator.output with
    | none => exact ⟨c, c, hset, .inl ⟨rfl, rfl⟩⟩
    | some output =>
        obtain ⟨text, htext⟩ := hresolves output houtput
        exact ⟨_, c, hset, .inr ⟨⟨text⟩, ⟨output, houtput, htext⟩, rfl⟩⟩

theorem ofOptions_eq_error_iff_misconfigures (hkeys : Ascending options.generator.config) :
    ofOptions options env = .error e ↔ options.Misconfigures env e := by
  rw [ofOptions_eq_error_iff, setAll_eq_error_iff hkeys, exists_setAll_iff]
  constructor
  · rintro (⟨key, v, hmem, hrefused, hleast⟩ | ⟨hsettings, output, houtput, hlacks⟩)
    · exact .setting hmem hrefused hleast
    · exact .output hsettings houtput hlacks
  · rintro (⟨hmem, hrefused, hleast⟩ | ⟨hsettings, houtput, hlacks⟩)
    · exact .inl ⟨_, _, hmem, hrefused, hleast⟩
    · exact .inr ⟨hsettings, _, houtput, hlacks⟩

theorem ofOptions_knownOnly (options : Options) (env : Environment) :
    ofOptions options.knownOnly env = ofOptions options env := by
  rw [ofOptions, ofOptions, Options.knownOnly, setAll_filter_known]

end Config

/-- A run has a configuration exactly if no known setting of its document is refused and an
output that the document gives its generator resolves, whatever the command line says. Each
part of the configuration is then settled by its own layers. Otherwise the run fails with the
refused setting whose key is least, or with what the output lacks. Settings that are not known
make no difference to either. -/
theorem CommandLine.configure_outcome :
    (∀ text options, Options.ofText text = .ok options → Ascending options.generator.config) ∧
    ∀ (a : Arguments) (options : Options) (env : Environment),
      Ascending options.generator.config →
      ((∃ config, configure a options env = .ok config) ↔ options.Configures env) ∧
      (∀ config, configure a options env = .ok config ↔
        options.Configures env ∧ Config.IsEffective a options env config) ∧
      (∀ e, configure a options env = .error e ↔ options.Misconfigures env e) ∧
      configure a options.knownOnly env = configure a options env := by
  refine ⟨fun text options h => Options.ascending_of_ofText h, fun a options env hkeys => ?_⟩
  have hsucceeds : (∃ config, configure a options env = .ok config) ↔ options.Configures env := by
    rw [← Config.exists_ofOptions_eq_ok_iff]
    constructor
    · rintro ⟨config, h⟩
      obtain ⟨c, hc, -⟩ := map_eq_ok.mp h
      exact ⟨c, hc⟩
    · rintro ⟨c, hc⟩
      exact ⟨_, map_eq_ok.mpr ⟨c, hc, rfl⟩⟩
  refine ⟨hsucceeds, fun config => ⟨fun h => ?_, fun ⟨hconfigures, heffective⟩ => ?_⟩,
    fun e => ?_, ?_⟩
  · exact ⟨hsucceeds.mp ⟨config, h⟩, Config.isEffective_of_configure hkeys h⟩
  · obtain ⟨found, hfound⟩ := hsucceeds.mpr hconfigures
    rwa [heffective.unique hkeys (Config.isEffective_of_configure hkeys hfound)]
  · rw [configure, map_eq_error, Config.ofOptions_eq_error_iff_misconfigures hkeys]
  · rw [configure, configure, Config.ofOptions_knownOnly]

namespace CommandLine

/-- A document that settles three parts of the configuration, one of them also by its output. -/
def layeredOptions : Options :=
  Config.outputOptions [("dryRun", .string "FALSE"), ("output", .string "./src"),
    ("useSwagger", .bool true), ("watch", .null)] (some ⟨some "./lib", some "OUT"⟩)

/-- A document with two settings that are refused and an output that cannot be found. -/
def refusedOptions : Options :=
  Config.outputOptions [("dryRun", .string "no"), ("output", .string " ")] (some ⟨none, none⟩)

def withoutSwagger : Arguments :=
  { Arguments.none with useSwagger := some false }

theorem configure_outcome_layeredOptions :
    (layeredOptions.Configures Config.outputVariable ∧
      Config.IsEffective withoutSwagger layeredOptions Config.outputVariable
        ⟨⟨"gen"⟩, true, false, false, false⟩) ∧
    refusedOptions.Misconfigures Config.outputVariable
      (.invalidConfig (.notABoolean "dryRun" "\"no\"")) := by
  have hlayered : Ascending layeredOptions.generator.config := by
    decide +kernel
  have hrefused : Ascending refusedOptions.generator.config := by
    decide +kernel
  have hconfig : configure withoutSwagger layeredOptions Config.outputVariable =
      .ok ⟨⟨"gen"⟩, true, false, false, false⟩ := rfl
  have herror : configure withoutSwagger refusedOptions Config.outputVariable =
      .error (.invalidConfig (.notABoolean "dryRun" "\"no\"")) := rfl
  exact ⟨((configure_outcome.2 _ _ _ hlayered).2.1 _).mp hconfig,
    ((configure_outcome.2 _ _ _ hrefused).2.2.1 _).mp herror⟩

end CommandLine

end Scaffold
