import Scaffold.CommandLine.Arguments
import Scaffold.Proofs.Ascending
import Scaffold.Proofs.Records
import Scaffold.Proofs.Spelling

/-!
# Settings of a document

A document sets parts of the configuration one key after another. What one setting can do is
said once: `Config.Sets` lists the cases in which it is applied, and `Config.Refuses` those in
which it is not. The four switches are alike in this, so there is one case for all of them.

Each key has a part of the configuration to itself. What all settings together do to a part is
therefore what the one setting under its key means, and if nothing stands under that key the
part is left alone.

The keys of a document ascend. Settings are applied in that order and up to the first that is
refused, so the setting that a failure reports is the refused one with the least key.
-/

namespace Scaffold

open CommandLine (Switch)
open Document (EnvValue Environment Options)
open Json (Ascending Value)

namespace Text

open Naming

/-- A text that is a given word of small letters, some of them perhaps as capitals. -/
def InAnyCase (s word : String) : Prop :=
  List.Forall₂ (fun c letter => c = letter ∨ c = letter.toUpper) s.toList word.toList

/-- A text with a character that is not blank. -/
def IsVisible (s : String) : Prop :=
  ∃ c ∈ s.toList, isBlank c = false

theorem isVisible_iff {s : String} : IsVisible s ↔ isBlankText s = false := by
  rw [IsVisible, isBlankText, List.all_eq_false]
  simp

theorem toLower_eq_iff {c letter : Char} (h : letter.isLower = true) :
    c.toLower = letter ↔ c = letter ∨ c = letter.toUpper := by
  have hsmall := toLower_of_isLower h
  constructor
  · rintro rfl
    cases hc : c.isUpper with
    | true =>
        right
        rw [toUpper_toLower, toUpper_of_isUpper hc]
    | false =>
        left
        rw [toLower_of_not_isUpper hc]
  · rintro (rfl | rfl)
    · exact hsmall
    · rw [toLower_toUpper, hsmall]

theorem lowerAscii_eq_iff {s word : String} (h : ∀ letter ∈ word.toList, letter.isLower = true) :
    lowerAscii s = word ↔ InAnyCase s word := by
  rw [lowerAscii, ← String.toList_inj, String.toList_ofList, InAnyCase]
  generalize s.toList = chars, word.toList = letters at h ⊢
  induction letters generalizing chars with
  | nil => simp
  | cons letter letters ih =>
      obtain ⟨hletter, hletters⟩ := List.forall_mem_cons.mp h
      cases chars with
      | nil => simp
      | cons c chars =>
          rw [List.map_cons, List.cons.injEq, List.forall₂_cons, toLower_eq_iff hletter,
            ih chars hletters]

end Text

namespace Config

/-- The truth value that a setting means. -/
inductive Means : Value → Bool → Prop
  | bool (b : Bool) : Means (.bool b) b
  | yes {s : String} (h : Text.InAnyCase s "true") : Means (.string s) true
  | no {s : String} (h : Text.InAnyCase s "false") : Means (.string s) false

/-- The path that a setting names. -/
inductive Names : Value → Path → Prop
  | path {s : String} (h : Text.IsVisible s) : Names (.string s) ⟨s⟩

theorem truth?_eq_some_iff {v : Value} {b : Bool} : truth? v = some b ↔ Means v b := by
  have hyes : ∀ {s}, Text.lowerAscii s = "true" ↔ Text.InAnyCase s "true" :=
    Text.lowerAscii_eq_iff (by simp)
  have hno : ∀ {s}, Text.lowerAscii s = "false" ↔ Text.InAnyCase s "false" :=
    Text.lowerAscii_eq_iff (by simp)
  constructor
  · intro h
    rw [truth?.eq_def] at h
    split at h
    · cases h
      exact .bool b
    · next s =>
        split at h
        · next heq =>
            cases h
            exact .yes (hyes.mp heq)
        · split at h
          · next heq =>
              cases h
              exact .no (hno.mp heq)
          · cases h
    · cases h
  · intro h
    cases h with
    | bool b => rfl
    | yes h => rw [truth?, if_pos (hyes.mpr h)]
    | no h => rw [truth?, hno.mpr h, if_neg (by decide), if_pos rfl]

theorem path?_eq_some_iff {v : Value} {p : Path} : path? v = some p ↔ Names v p := by
  constructor
  · intro h
    rw [path?.eq_def] at h
    split at h
    · split at h
      · cases h
      · next hvisible =>
          cases h
          exact .path (Text.isVisible_iff.mpr (Bool.eq_false_of_not_eq_true hvisible))
    · cases h
  · rintro ⟨h⟩
    rw [path?, Text.isVisible_iff.mp h]
    rfl

theorem truth_eq_ok_iff {key : String} {v : Value} {b : Bool} :
    truth key v = .ok b ↔ Means v b := by
  rw [← truth?_eq_some_iff, truth]
  cases truth? v <;> simp

theorem truth_eq_error_iff {key : String} {v : Value} {e : Error} :
    truth key v = .error e ↔
      (∀ b, ¬ Means v b) ∧ e = .invalidConfig (.notABoolean key v.text) := by
  simp only [← truth?_eq_some_iff, truth]
  cases truth? v <;> simp [eq_comm]

theorem path_eq_ok_iff {key : String} {v : Value} {p : Path} :
    path key v = .ok p ↔ Names v p := by
  rw [← path?_eq_some_iff, path]
  cases path? v <;> simp

theorem path_eq_error_iff {key : String} {v : Value} {e : Error} :
    path key v = .error e ↔ (∀ p, ¬ Names v p) ∧ e = .invalidConfig (.blankPath key v.text) := by
  simp only [← path?_eq_some_iff, path]
  cases path? v <;> simp [eq_comm]

end Config

/-- The key of a switch in a document. -/
def CommandLine.Switch.key : Switch → String
  | .dryRun => "dryRun"
  | .useSwagger => "useSwagger"
  | .separateRelationFields => "separateRelationFields"
  | .makeIndexFile => "makeIndexFile"

namespace Config

/-- The keys that are known. -/
def knownKeys : List String :=
  ["makeIndexFile", "dryRun", "separateRelationFields", "useSwagger", "output"]

def switch (c : Config) : Switch → Bool
  | .dryRun => c.dryRun
  | .useSwagger => c.useSwagger
  | .separateRelationFields => c.separateRelationFields
  | .makeIndexFile => c.makeIndexFile

def withSwitch (c : Config) (s : Switch) (b : Bool) : Config :=
  match s with
  | .dryRun => { c with dryRun := b }
  | .useSwagger => { c with useSwagger := b }
  | .separateRelationFields => { c with separateRelationFields := b }
  | .makeIndexFile => { c with makeIndexFile := b }

/-- A setting that is valid, or not known. -/
structure Accepts (key : String) (v : Value) : Prop where
  switch : ∀ s : Switch, key = s.key → ∃ b, Means v b
  output : key = "output" → ∃ p, Names v p

/-- The settings that are refused, and the error that each of them is. -/
inductive Refuses (key : String) (v : Value) : Error → Prop
  | switch {s : Switch} (hkey : key = s.key) (h : ∀ b, ¬ Means v b) :
      Refuses key v (.invalidConfig (.notABoolean key v.text))
  | output (hkey : key = "output") (h : ∀ p, ¬ Names v p) :
      Refuses key v (.invalidConfig (.blankPath key v.text))

/-- What a setting makes of a configuration. -/
inductive Sets (c : Config) (key : String) (v : Value) : Config → Prop
  | switch {s : Switch} {b : Bool} (hkey : key = s.key) (h : Means v b) :
      Sets c key v (c.withSwitch s b)
  | output {p : Path} (hkey : key = "output") (h : Names v p) :
      Sets c key v { c with outputDir := p }
  | unknown (hkey : key ∉ knownKeys) : Sets c key v c

theorem switch_withSwitch (c : Config) (s : Switch) (b : Bool) :
    (c.withSwitch s b).switch s = b := by
  cases s <;> rfl

theorem switch_withSwitch_of_ne (c : Config) {s s' : Switch} (b : Bool) (h : s' ≠ s) :
    (c.withSwitch s b).switch s' = c.switch s' := by
  cases s <;> cases s' <;> first | rfl | exact absurd rfl h

theorem outputDir_withSwitch (c : Config) (s : Switch) (b : Bool) :
    (c.withSwitch s b).outputDir = c.outputDir := by
  cases s <;> rfl

theorem key_inj {s s' : Switch} (h : s.key = s'.key) : s = s' := by
  revert h
  cases s <;> cases s' <;> decide

theorem key_ne_output (s : Switch) : s.key ≠ "output" := by
  cases s <;> decide

theorem key_mem_knownKeys (s : Switch) : s.key ∈ knownKeys := by
  cases s <;> decide

theorem key_cases (key : String) :
    (∃ s : Switch, key = s.key) ∨ key = "output" ∨ key ∉ knownKeys := by
  by_cases h : key ∈ knownKeys
  · simp only [knownKeys, List.mem_cons, List.not_mem_nil, or_false] at h
    rcases h with h | h | h | h | h
    · exact .inl ⟨.makeIndexFile, h⟩
    · exact .inl ⟨.dryRun, h⟩
    · exact .inl ⟨.separateRelationFields, h⟩
    · exact .inl ⟨.useSwagger, h⟩
    · exact .inr (.inl h)
  · exact .inr (.inr h)

variable {c c' : Config} {key : String} {v : Value} {e : Error}

theorem set_key (c : Config) (s : Switch) (v : Value) :
    c.set s.key v = (truth s.key v).map (c.withSwitch s) := by
  cases s <;> rfl

theorem set_output (c : Config) (v : Value) :
    c.set "output" v = (path "output" v).map fun p => { c with outputDir := p } :=
  rfl

theorem set_of_not_mem_knownKeys (c : Config) (h : key ∉ knownKeys) (v : Value) :
    c.set key v = .ok c := by
  simp only [knownKeys, List.mem_cons, List.not_mem_nil, or_false, not_or] at h
  simp [set, h]

theorem set_eq_ok_iff : c.set key v = .ok c' ↔ Sets c key v c' := by
  constructor
  · intro h
    rcases key_cases key with ⟨s, rfl⟩ | rfl | hkey
    · obtain ⟨b, hb, rfl⟩ := map_eq_ok.mp (set_key c s v ▸ h)
      exact .switch rfl (truth_eq_ok_iff.mp hb)
    · obtain ⟨p, hp, rfl⟩ := map_eq_ok.mp (set_output c v ▸ h)
      exact .output rfl (path_eq_ok_iff.mp hp)
    · obtain rfl := Except.ok.inj (set_of_not_mem_knownKeys c hkey v ▸ h)
      exact .unknown hkey
  · intro h
    cases h with
    | @switch s b hkey h =>
        subst hkey
        rw [set_key]
        exact map_eq_ok.mpr ⟨b, truth_eq_ok_iff.mpr h, rfl⟩
    | @output p hkey h =>
        subst hkey
        rw [set_output]
        exact map_eq_ok.mpr ⟨p, path_eq_ok_iff.mpr h, rfl⟩
    | unknown hkey => exact set_of_not_mem_knownKeys c hkey v

theorem set_eq_error_iff : c.set key v = .error e ↔ Refuses key v e := by
  constructor
  · intro h
    rcases key_cases key with ⟨s, rfl⟩ | rfl | hkey
    · obtain ⟨hnone, rfl⟩ := truth_eq_error_iff.mp (map_eq_error.mp (set_key c s v ▸ h))
      exact .switch rfl hnone
    · obtain ⟨hnone, rfl⟩ := path_eq_error_iff.mp (map_eq_error.mp (set_output c v ▸ h))
      exact .output rfl hnone
    · rw [set_of_not_mem_knownKeys c hkey v] at h
      cases h
  · intro h
    cases h with
    | switch hkey h =>
        subst hkey
        rw [set_key]
        exact map_eq_error.mpr (truth_eq_error_iff.mpr ⟨h, rfl⟩)
    | output hkey h =>
        subst hkey
        rw [set_output]
        exact map_eq_error.mpr (path_eq_error_iff.mpr ⟨h, rfl⟩)

theorem exists_set_iff (c : Config) : (∃ c', c.set key v = .ok c') ↔ Accepts key v := by
  simp only [set_eq_ok_iff]
  constructor
  · rintro ⟨c', h⟩
    cases h with
    | @switch s b hkey h =>
        exact ⟨fun _ _ => ⟨b, h⟩, fun houtput => absurd (hkey ▸ houtput) (key_ne_output s)⟩
    | @output p hkey h => exact ⟨fun s hs => absurd (hs ▸ hkey) (key_ne_output s), fun _ => ⟨p, h⟩⟩
    | unknown hkey =>
        exact ⟨fun s hs => absurd (hs ▸ key_mem_knownKeys s) hkey,
          fun houtput => absurd (houtput ▸ by decide) hkey⟩
  · rintro ⟨hswitch, houtput⟩
    rcases key_cases key with ⟨s, hs⟩ | hkey | hkey
    · obtain ⟨b, hb⟩ := hswitch s hs
      exact ⟨_, .switch hs hb⟩
    · obtain ⟨p, hp⟩ := houtput hkey
      exact ⟨_, .output hkey hp⟩
    · exact ⟨c, .unknown hkey⟩

/-! ## All settings

Every part of a configuration belongs to one key, so the order in which settings are applied
shows in nothing but the error that is reported. `IsSetBy` says of a part that one key
decides it; what a list of settings does to the part follows once for all parts. -/

variable {settings : List (String × Value)}

theorem setAll_cons_eq_ok :
    c.setAll ((key, v) :: settings) = .ok c' ↔
      ∃ next, Sets c key v next ∧ next.setAll settings = .ok c' := by
  simp only [setAll, bind_eq_ok, set_eq_ok_iff]

/-- What every setting leaves as it is holds after all of them. -/
theorem setAll_keeps {P : Config → Prop}
    (hstep : ∀ setting ∈ settings, ∀ c c', Sets c setting.1 setting.2 c' → P c → P c')
    (hset : c.setAll settings = .ok c') (hc : P c) : P c' := by
  induction settings generalizing c with
  | nil => exact Except.ok.inj hset ▸ hc
  | cons setting rest ih =>
      obtain ⟨hfirst, hothers⟩ := List.forall_mem_cons.mp hstep
      obtain ⟨next, hnext, hrest⟩ := setAll_cons_eq_ok.mp hset
      exact ih hothers hrest (hfirst c next hnext hc)

theorem exists_setAll_iff :
    (∃ c', c.setAll settings = .ok c') ↔ ∀ setting ∈ settings, Accepts setting.1 setting.2 := by
  induction settings generalizing c with
  | nil => simp [setAll]
  | cons setting rest ih =>
      obtain ⟨key, v⟩ := setting
      rw [List.forall_mem_cons, ← exists_set_iff c]
      constructor
      · rintro ⟨c', h⟩
        obtain ⟨next, hnext, hrest⟩ := setAll_cons_eq_ok.mp h
        exact ⟨⟨next, set_eq_ok_iff.mpr hnext⟩, ih.mp ⟨c', hrest⟩⟩
      · rintro ⟨⟨next, hnext⟩, hrest⟩
        obtain ⟨c', h⟩ := ih (c := next).mpr hrest
        exact ⟨c', setAll_cons_eq_ok.mpr ⟨next, set_eq_ok_iff.mp hnext, h⟩⟩

/-- Settings fail with the error of the refused one that has the least key. -/
theorem setAll_eq_error_iff (hkeys : Ascending settings) :
    c.setAll settings = .error e ↔
      ∃ key v, (key, v) ∈ settings ∧ Refuses key v e ∧
        ∀ setting ∈ settings, setting.1 < key → Accepts setting.1 setting.2 := by
  induction settings generalizing c with
  | nil => simp [setAll]
  | cons setting rest ih =>
      obtain ⟨first, held⟩ := setting
      obtain ⟨hfirst, hrest⟩ := List.pairwise_cons.mp hkeys
      have hbelow : ∀ other ∈ rest, first < other.1 :=
        fun other hother => hfirst other.1 (List.mem_map_of_mem hother)
      rw [setAll, bind_eq_error, set_eq_error_iff]
      constructor
      · rintro (hrefused | ⟨next, hnext, herror⟩)
        · refine ⟨first, held, List.mem_cons_self, hrefused, ?_⟩
          rw [List.forall_mem_cons]
          exact ⟨fun h => absurd h (lt_irrefl _),
            fun other hother h => absurd h (lt_asymm (hbelow other hother))⟩
        · obtain ⟨key, v, hmem, hrefused, hleast⟩ := (ih hrest).mp herror
          exact ⟨key, v, List.mem_cons_of_mem _ hmem, hrefused,
            List.forall_mem_cons.mpr ⟨fun _ => (exists_set_iff c).mp ⟨next, hnext⟩, hleast⟩⟩
      · rintro ⟨key, v, hmem, hrefused, hleast⟩
        obtain ⟨hhead, hleast⟩ := List.forall_mem_cons.mp hleast
        rcases List.mem_cons.mp hmem with heq | hmem
        · obtain ⟨rfl, rfl⟩ := Prod.mk.inj heq
          exact .inl hrefused
        · obtain ⟨next, hnext⟩ := (exists_set_iff c).mpr (hhead (hbelow _ hmem))
          exact .inr ⟨next, hnext, (ih hrest).mpr ⟨key, v, hmem, hrefused, hleast⟩⟩

/-- Settings that are not known might as well not be there. -/
theorem setAll_filter_known (c : Config) (settings : List (String × Value)) :
    c.setAll (settings.filter fun setting => setting.1 ∈ knownKeys) = c.setAll settings := by
  induction settings generalizing c with
  | nil => rfl
  | cons setting rest ih =>
      obtain ⟨key, v⟩ := setting
      by_cases hkey : key ∈ knownKeys
      · rw [List.filter_cons_of_pos (by simpa using hkey), setAll, setAll]
        exact bind_congr fun next => ih next
      · rw [List.filter_cons_of_neg (by simpa using hkey), setAll,
          set_of_not_mem_knownKeys c hkey v, ih c]
        rfl

/-- A part of a configuration that one key decides and no other touches. -/
structure IsSetBy (part : Config → α) (key : String) (means : Value → α → Prop) : Prop where
  here : ∀ {c v c'}, Sets c key v c' → means v (part c')
  elsewhere : ∀ {c name v c'}, Sets c name v c' → name ≠ key → part c' = part c

theorem isSetBy_switch (s : Switch) : IsSetBy (fun c => c.switch s) s.key Means where
  here h := by
    cases h with
    | @switch s' b hkey h =>
        obtain rfl := key_inj hkey
        rwa [switch_withSwitch]
    | output hkey h => exact absurd hkey (key_ne_output s)
    | unknown hkey => exact absurd (key_mem_knownKeys s) hkey
  elsewhere h hname := by
    cases h with
    | @switch s' b hkey h =>
        refine switch_withSwitch_of_ne _ b fun heq => hname ?_
        rw [hkey, heq]
    | output hkey h => cases s <;> rfl
    | unknown hkey => rfl

theorem isSetBy_outputDir : IsSetBy outputDir "output" Names where
  here h := by
    cases h with
    | @switch s b hkey h => exact absurd hkey.symm (key_ne_output s)
    | output hkey h => exact h
    | unknown hkey => exact absurd (by decide) hkey
  elsewhere h hname := by
    cases h with
    | @switch s b hkey h => exact outputDir_withSwitch _ s b
    | output hkey h => exact absurd hkey hname
    | unknown hkey => rfl

section IsSetBy

variable {part : Config → α} {means : Value → α → Prop}

theorem IsSetBy.kept (h : IsSetBy part key means) (hkey : key ∉ settings.map Prod.fst)
    (hset : c.setAll settings = .ok c') : part c' = part c := by
  refine setAll_keeps (P := fun next => part next = part c) (fun setting hmem d d' hd hpart => ?_)
    hset rfl
  have hname : setting.1 ≠ key := fun heq => hkey (heq ▸ List.mem_map_of_mem hmem)
  exact (h.elsewhere hd hname).trans hpart

/-- What settings do to a part: it is what the setting under its key means. -/
theorem IsSetBy.of_mem (h : IsSetBy part key means) (hkeys : Ascending settings)
    (hset : c.setAll settings = .ok c') (hmem : (key, v) ∈ settings) : means v (part c') := by
  induction settings generalizing c with
  | nil => cases hmem
  | cons setting rest ih =>
      obtain ⟨name, held⟩ := setting
      obtain ⟨hfirst, hsorted⟩ := List.pairwise_cons.mp hkeys
      obtain ⟨next, hnext, hrest⟩ := setAll_cons_eq_ok.mp hset
      rcases List.mem_cons.mp hmem with heq | hmem
      · obtain ⟨rfl, rfl⟩ := Prod.mk.inj heq
        rw [h.kept (fun hkey => lt_irrefl _ (hfirst key hkey)) hrest]
        exact h.here hnext
      · exact ih hsorted hrest hmem

end IsSetBy

end Config

namespace Document

/-- The text that stands for a value or for a variable that is set. -/
inductive EnvValue.Resolves (env : Environment) : EnvValue → String → Prop
  | fromVariable {value : Option String} {name text : String} (h : env name = some text) :
      Resolves env ⟨value, some name⟩ text
  | literal (text : String) : Resolves env ⟨some text, none⟩ text

/-- What is missing where neither a value nor a variable that is set is given. -/
inductive EnvValue.Lacks (env : Environment) (what : String) : EnvValue → Error → Prop
  | unset {value : Option String} {name : String} (h : env name = none) :
      Lacks env what ⟨value, some name⟩ (.missingConfig (.unsetVariable what name))
  | nothing : Lacks env what ⟨none, none⟩ (.missingConfig (.unset what))

variable {env : Environment} {value : EnvValue} {what text : String} {e : Error}

theorem EnvValue.resolve_eq_ok_iff :
    value.resolve env what = .ok text ↔ value.Resolves env text := by
  obtain ⟨literal, fromEnvVar⟩ := value
  constructor
  · intro h
    cases fromEnvVar with
    | some name =>
        cases hname : env name with
        | none => simp [resolve, hname] at h
        | some found =>
            obtain rfl : found = text := by simpa [resolve, hname] using h
            exact .fromVariable hname
    | none =>
        cases literal with
        | none => cases h
        | some found =>
            cases h
            exact .literal text
  · intro h
    cases h with
    | fromVariable h => simp [resolve, h]
    | literal => rfl

theorem EnvValue.resolve_eq_error_iff :
    value.resolve env what = .error e ↔ value.Lacks env what e := by
  obtain ⟨literal, fromEnvVar⟩ := value
  constructor
  · intro h
    cases fromEnvVar with
    | some name =>
        cases hname : env name with
        | some found => simp [resolve, hname] at h
        | none =>
            obtain rfl : _ = e := by simpa [resolve, hname] using h
            exact .unset hname
    | none =>
        cases literal with
        | some found => cases h
        | none =>
            cases h
            exact .nothing
  · intro h
    cases h with
    | unset h => simp [resolve, h]
    | nothing => rfl

theorem EnvValue.Resolves.unique {text' : String} (h : value.Resolves env text)
    (h' : value.Resolves env text') : text = text' := by
  cases h with
  | fromVariable h =>
      cases h' with
      | fromVariable h' => exact Option.some.inj (h.symm.trans h')
  | literal text =>
      cases h'
      rfl

/-- The output directory that a document gives to its generator. -/
def Options.GivesOutput (o : Options) (env : Environment) (p : Path) : Prop :=
  ∃ output, o.generator.output = some output ∧ output.Resolves env p.text

theorem Options.GivesOutput.unique {o : Options} {p q : Path} (hp : o.GivesOutput env p)
    (hq : o.GivesOutput env q) : p = q := by
  obtain ⟨output, houtput, hresolves⟩ := hp
  obtain ⟨other, hother, hresolves'⟩ := hq
  obtain rfl := Option.some.inj (houtput.symm.trans hother)
  exact congrArg Path.mk (hresolves.unique hresolves')

end Document

namespace Config

variable {options : Options} {env : Environment} {config : Config} {e : Error}

theorem ofOptions_eq_ok_iff :
    ofOptions options env = .ok config ↔
      ∃ c, standard.setAll options.generator.config = .ok c ∧
        ((options.generator.output = none ∧ config = c) ∨
          ∃ p, options.GivesOutput env p ∧ config = { c with outputDir := p }) := by
  rw [ofOptions, bind_eq_ok]
  refine exists_congr fun c => and_congr_right fun _ => ?_
  cases houtput : options.generator.output with
  | none => simp [Options.GivesOutput, houtput, pure, Except.pure, eq_comm]
  | some output =>
      simp only [Options.GivesOutput, houtput, bind_eq_ok, pure_eq_ok, EnvValue.resolve_eq_ok_iff]
      constructor
      · rintro ⟨text, htext, rfl⟩
        exact .inr ⟨⟨text⟩, ⟨output, rfl, htext⟩, rfl⟩
      · rintro (⟨hnone, -⟩ | ⟨p, ⟨_, ⟨⟩, htext⟩, rfl⟩)
        · cases hnone
        · exact ⟨p.text, htext, rfl⟩

theorem ofOptions_eq_error_iff :
    ofOptions options env = .error e ↔
      standard.setAll options.generator.config = .error e ∨
        ((∃ c, standard.setAll options.generator.config = .ok c) ∧
          ∃ output, options.generator.output = some output ∧
            output.Lacks env "generator output" e) := by
  rw [ofOptions, bind_eq_error]
  refine or_congr_right ?_
  cases options.generator.output with
  | none => simp [pure, Except.pure]
  | some output =>
      simp [bind_eq_error, EnvValue.resolve_eq_error_iff, pure, Except.pure]

/-! ## Output directories that are blank

A setting for the output is refused if it is blank. The output that the generator has of its
own is taken as it stands, and a blank directory can come from nowhere else. -/

theorem Sets.isVisible {c c' : Config} {key : String} {v : Value} (h : Sets c key v c')
    (hc : Text.IsVisible c.outputDir.text) : Text.IsVisible c'.outputDir.text := by
  cases h with
  | @switch s b hkey h => rwa [outputDir_withSwitch]
  | output hkey h =>
      cases h with
      | path h => exact h
  | unknown hkey => exact hc

/-- Settings alone never lead to a blank path. -/
theorem isVisible_setAll {c c' : Config} {settings : List (String × Value)}
    (h : c.setAll settings = .ok c') (hc : Text.IsVisible c.outputDir.text) :
    Text.IsVisible c'.outputDir.text :=
  setAll_keeps (P := fun c => Text.IsVisible c.outputDir.text)
    (fun _ _ _ _ hsets => hsets.isVisible) h hc

theorem Refuses.exists_eq {key : String} {v : Value} (h : Refuses key v e) :
    ∃ defect, e = .invalidConfig defect := by
  cases h with
  | switch hkey h => exact ⟨_, rfl⟩
  | output hkey h => exact ⟨_, rfl⟩

theorem exists_of_setAll_eq_error {c : Config} {settings : List (String × Value)}
    (h : c.setAll settings = .error e) : ∃ defect, e = .invalidConfig defect := by
  induction settings generalizing c with
  | nil => cases h
  | cons setting rest ih =>
      obtain ⟨key, v⟩ := setting
      rcases bind_eq_error.mp h with herror | ⟨next, -, hrest⟩
      · exact (set_eq_error_iff.mp herror).exists_eq
      · exact ih hrest

/-- A run of settings that does not succeed fails with the error of a setting. -/
theorem exists_ofOptions_eq_error (h : ¬ ∀ setting ∈ options.generator.config,
    Accepts setting.1 setting.2) :
    ∃ defect, ofOptions options env = .error (.invalidConfig defect) := by
  rw [← exists_setAll_iff (c := standard)] at h
  cases hset : standard.setAll options.generator.config with
  | ok c => exact absurd ⟨c, hset⟩ h
  | error e =>
      obtain ⟨defect, rfl⟩ := exists_of_setAll_eq_error hset
      exact ⟨defect, ofOptions_eq_error_iff.mpr (.inl hset)⟩

theorem isConfig_of_ofOptions_eq_error (h : ofOptions options env = .error e) :
    e.isConfig = true := by
  rcases ofOptions_eq_error_iff.mp h with herror | ⟨-, output, -, hlacks⟩
  · obtain ⟨defect, rfl⟩ := exists_of_setAll_eq_error herror
    rfl
  · cases hlacks with
    | unset h => rfl
    | nothing => rfl

/-- A configuration has an output directory that is not blank unless the document gives its
generator an output that is: that output, as a value or through a variable, is taken as it is.
A blank path among the settings is always refused, and so is an output without a text. -/
theorem ofOptions_isVisible_iff (options : Options) (env : Environment) :
    (∀ config, ofOptions options env = .ok config →
      (Text.IsVisible config.outputDir.text ↔
        ∀ p, options.GivesOutput env p → Text.IsVisible p.text)) ∧
    (∀ v, ("output", v) ∈ options.generator.config → (∀ p, ¬ Names v p) →
      ∃ defect, ofOptions options env = .error (.invalidConfig defect)) ∧
    ∀ output, options.generator.output = some output →
      (∀ text, ¬ output.Resolves env text) →
      ∃ e, ofOptions options env = .error e ∧ e.isConfig = true := by
  refine ⟨fun config h => ?_, fun v hmem hblank => ?_, fun output houtput hnone => ?_⟩
  · obtain ⟨c, hset, ⟨hnone, rfl⟩ | ⟨p, hp, rfl⟩⟩ := ofOptions_eq_ok_iff.mp h
    · have hvisible : Text.IsVisible config.outputDir.text :=
        isVisible_setAll hset ⟨'.', by decide, by decide⟩
      refine iff_of_true hvisible fun p ⟨output, houtput, _⟩ => ?_
      rw [hnone] at houtput
      cases houtput
    · exact ⟨fun hvisible q hq => hp.unique hq ▸ hvisible, fun hall => hall p hp⟩
  · refine exists_ofOptions_eq_error fun hall => ?_
    obtain ⟨p, hp⟩ := (hall _ hmem).output rfl
    exact hblank p hp
  · cases h : ofOptions options env with
    | error e => exact ⟨e, rfl, isConfig_of_ofOptions_eq_error h⟩
    | ok config =>
        obtain ⟨c, -, ⟨hno, -⟩ | ⟨p, ⟨other, hother, hresolves⟩, -⟩⟩ := ofOptions_eq_ok_iff.mp h
        · rw [houtput] at hno
          cases hno
        · obtain rfl := Option.some.inj (houtput.symm.trans hother)
          exact absurd hresolves (hnone p.text)

/-- A document without declarations that gives its generator some settings and an output. -/
def outputOptions (settings : List (String × Value)) (output : Option EnvValue) : Options :=
  { Options.ofDatamodel ⟨[], []⟩ with generator := ⟨none, none, output, settings⟩ }

/-- An environment with one variable. -/
def outputVariable : Environment := fun name => if name = "OUT" then some "gen" else none

theorem ofOptions_isVisible_iff_outputVariable :
    (∃ config, ofOptions (outputOptions [("output", .string "./base")] (some ⟨none, some "OUT"⟩))
      outputVariable = .ok config ∧ Text.IsVisible config.outputDir.text) ∧
    (∃ defect, ofOptions (outputOptions [("output", .string " \t")] (some ⟨none, some "OUT"⟩))
      outputVariable = .error (.invalidConfig defect)) ∧
    ∃ e, ofOptions (outputOptions [] (some ⟨some "gen", some "DIR"⟩)) outputVariable = .error e ∧
      e.isConfig = true := by
  refine ⟨?_, ?_, ?_⟩
  · have hgiven : ∀ p, (outputOptions [("output", .string "./base")]
        (some ⟨none, some "OUT"⟩)).GivesOutput outputVariable p → Text.IsVisible p.text := by
      rintro ⟨text⟩ ⟨_, ⟨⟩, ⟨h⟩⟩
      obtain rfl : "gen" = text := Option.some.inj h
      exact ⟨'g', by decide, by decide⟩
    exact ⟨_, rfl, ((ofOptions_isVisible_iff _ _).1 _ rfl).mpr hgiven⟩
  · refine (ofOptions_isVisible_iff _ _).2.1 (.string " \t") (by simp [outputOptions]) ?_
    rintro p ⟨c, hc, hvisible⟩
    have hblank : Text.isBlankText " \t" = false := Text.isVisible_iff.mp ⟨c, hc, hvisible⟩
    exact absurd hblank (by decide)
  · refine (ofOptions_isVisible_iff _ _).2.2 ⟨some "gen", some "DIR"⟩ rfl ?_
    rintro text ⟨h⟩
    cases h

/-- A document whose generator is given an empty text as its output. -/
def blankOutput : String :=
  "\x7b\"generator\": \x7b\"output\": \"\"\x7d, \"dmmf\": \x7b\"datamodel\": \x7b\x7d\x7d\x7d"

/-- The output of a generator may be blank. With an empty text it is the working directory
itself to which files are written. -/
theorem exists_blank_outputDir :
    ∃ options config, Options.ofText blankOutput = .ok options ∧
      ofOptions options (fun _ => none) = .ok config ∧
      ¬ Text.IsVisible config.outputDir.text := by
  have hread : ((Options.ofText blankOutput).toOption.bind fun options =>
      (ofOptions options fun _ => none).toOption.map fun config => config.outputDir.text) =
        some "" := by
    decide +kernel
  cases hoptions : Options.ofText blankOutput with
  | error e =>
      rw [hoptions] at hread
      cases hread
  | ok options =>
      cases hconfig : ofOptions options fun _ => none with
      | error e => simp [hoptions, hconfig, Except.toOption] at hread
      | ok config =>
          have htext : config.outputDir.text = "" := by
            simpa [hoptions, hconfig, Except.toOption] using hread
          refine ⟨options, config, rfl, hconfig, ?_⟩
          rw [htext, Text.isVisible_iff]
          decide

end Config

end Scaffold
